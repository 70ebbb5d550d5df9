import Yul.Proofs.Prompt.Exact
import Yul.Proofs.Text.Escapes
import Yul.Proofs.Word.Spelling

/-!
# Literals that are tokens

The patterns of the tokens and the decoders of literals agree on quotes, on escaped quotes and on
pairs of digits (`literals_fit`): no source is refused because a literal has no quotes or an odd
number of digits. A decoder may refuse an escape, but never for want of a character behind its
backslash: what stands between the quotes of a string is `Paired`, and so is all that the decoder
leaves of it. The bytes that a string is read as are those of the rules with loose digits
(`decodeString_exact`), and some strings without full digits have such bytes (`shortEscape_decodes`).
-/

namespace Yul

namespace Text

/-! ## Strings -/

/-- Every backslash takes a character along that stands behind it. -/
inductive Paired : List Char → Prop where
  | nil : Paired []
  | plain {c : Char} {cs : List Char} (hc : c ≠ '\\') (h : Paired cs) : Paired (c :: cs)
  | escape (c : Char) {cs : List Char} (h : Paired cs) : Paired ('\\' :: c :: cs)

/-- A decoder of the characters `cs` comes to the characters `rest` that are left of them. -/
inductive Leaves : List Char → List Char → Prop where
  | refl (cs : List Char) : Leaves cs cs
  | plain {c : Char} {cs rest : List Char} (hc : c ≠ '\\') (h : Leaves cs rest) :
      Leaves (c :: cs) rest
  | escape {cs rest : List Char} {bytes : List UInt8} {length : Nat}
      (hescape : escape cs = .ok (bytes, length)) (h : Leaves (cs.drop length) rest) :
      Leaves ('\\' :: cs) rest

/-- What can be wrong about a string between quotes. -/
def escapeErrors : List LiteralError :=
  [.badByteEscape, .badCharEscape, .unknownEscape]

/-- The lower-case spelling of a byte. -/
def byteSpelling (b : UInt8) : List Char :=
  padZeros 2 (hexDigits b.toNat)

theorem error_of_bind {ε α β : Type} {x : Except ε α} {f : α → Except ε β} {e : ε}
    (h : x >>= f = .error e) : x = .error e ∨ ∃ a, x = .ok a ∧ f a = .error e := by
  cases x with
  | error e' =>
    cases h
    exact .inl rfl
  | ok a => exact .inr ⟨a, rfl, h⟩

theorem escape_error {cs : List Char} {e : LiteralError} (h : escape cs = .error e) :
    e ∈ escapeErrors := by
  unfold escape at h
  split at h
  iterate 6
    · cases h
  iterate 2
    · split at h <;> cases h
      decide
  · cases h
    decide

theorem unescape_error {cs : List Char} {e : LiteralError} (h : unescape cs = .error e) :
    e ∈ escapeErrors := by
  fun_induction unescape cs with
  | case1 => cases h
  | case2 cs ih =>
    rcases error_of_bind h with h | ⟨⟨bytes, length⟩, -, h⟩
    · exact escape_error h
    · rcases error_of_bind h with h | ⟨more, -, h⟩
      · exact ih length h
      · cases h
  | case3 c cs hc ih =>
    rcases error_of_bind h with h | ⟨more, -, h⟩
    · exact ih h
    · cases h

/-! ### Pairs -/

theorem exists_paired {w : List Char} (h : Pattern.StringTail w) :
    ∃ inner, w = inner ++ ['"'] ∧ Paired inner := by
  induction h with
  | close => exact ⟨[], rfl, .nil⟩
  | plain _ hslash _ _ ih =>
    obtain ⟨inner, rfl, hinner⟩ := ih
    exact ⟨_ :: inner, rfl, .plain hslash hinner⟩
  | escape _ _ ih =>
    obtain ⟨inner, rfl, hinner⟩ := ih
    exact ⟨_ :: _ :: inner, rfl, .escape _ hinner⟩

theorem Paired.tail {c : Char} {cs : List Char} (h : Paired (c :: cs)) (hc : c ≠ '\\') :
    Paired cs := by
  cases h with
  | plain _ h => exact h
  | escape => exact absurd rfl hc

theorem Paired.of_append {ds rest : List Char} (hds : ∀ d ∈ ds, d ≠ '\\')
    (h : Paired (ds ++ rest)) : Paired rest := by
  induction ds with
  | nil => exact h
  | cons d ds ih =>
    rw [List.forall_mem_cons] at hds
    exact ih hds.2 (h.tail hds.1)

theorem LooseDigits.ne_backslash {width n : Nat} {ds rest : List Char}
    (h : LooseDigits width ds rest n) : ∀ d ∈ ds, d ≠ '\\' := by
  rintro d hd rfl
  rcases h.digits _ hd with hplus | ⟨v, hv⟩
  · exact absurd hplus (by decide)
  · have hnone : digit? 16 '\\' = none := by decide
    exact nomatch hnone.symm.trans (digit?_eq_some_iff.mpr hv)

/-- Behind an escape that can be decoded, backslashes are still paired. -/
theorem Paired.drop {cs : List Char} {bytes : List UInt8} {length : Nat}
    (h : Paired ('\\' :: cs)) (hescape : Text.escape cs = .ok (bytes, length)) :
    Paired (cs.drop length) := by
  have hdenotes := escape_eq_ok_iff.mp ⟨length, hescape, rfl⟩
  generalize cs.drop length = rest at hdenotes
  cases h with
  | plain hc => exact absurd rfl hc
  | escape c h =>
    -- an escape may be longer than a pair, but no backslash is among its digits
    cases hdenotes with
    | mark => exact h
    | byte hdigits => exact h.of_append hdigits.ne_backslash
    | char hdigits => exact h.of_append hdigits.ne_backslash

theorem Leaves.paired {cs rest : List Char} (h : Leaves cs rest) (hcs : Paired cs) :
    Paired rest := by
  induction h with
  | refl => exact hcs
  | plain hc _ ih => exact ih (hcs.tail hc)
  | escape hescape _ ih => exact ih (hcs.drop hescape)

theorem not_paired_backslash : ¬Paired ['\\'] := by
  intro h
  cases h with
  | plain hc => exact hc rfl

/-! ## Hexadecimal strings -/

theorem toLower_of_isDigit {c : Char} {d : Nat} (h : IsDigit 16 c d) : c.toLower = d.digitChar := by
  have hlower : ∀ d : Fin 16, (digitChars[d.val]?).map Char.toLower = some d.val.digitChar := by
    decide
  have hupper : ∀ d : Fin 16, (upperDigitChars[d.val]?).map Char.toLower = some d.val.digitChar := by
    decide
  obtain ⟨hlt, hc | hc⟩ := h
  · have hd := hlower ⟨d, hlt⟩
    rw [hc] at hd
    exact Option.some.inj hd
  · have hd := hupper ⟨d, hlt⟩
    rw [hc] at hd
    exact Option.some.inj hd

theorem byteSpelling_ofNat {m k : Nat} (hm : m < 16) (hk : k < 16) :
    byteSpelling (UInt8.ofNat (16 * m + k)) = [m.digitChar, k.digitChar] := by
  have hbyte : (UInt8.ofNat (16 * m + k)).toNat = 16 * m + k :=
    UInt8.toNat_ofNat_of_lt (by show _ < 256; omega)
  have hhigh : (16 * m + k) / 16 = m := by omega
  have hlow : (16 * m + k) % 16 = k := by omega
  rw [byteSpelling, hbyte, padZeros_hexDigits Nat.one_pos, hhigh, hlow, hexDigits_of_lt hm,
    hexDigits_of_lt hk]
  rfl

theorem byteSpelling_of_digits {x y : Char} {b : UInt8} (h : Denotes 16 [x, y] b.toNat) :
    byteSpelling b = [x.toLower, y.toLower] := by
  obtain ⟨ds, hds, hb⟩ := h
  cases hds with
  | @cons _ m _ _ hm hds =>
  cases hds with
  | @cons _ k _ _ hk hds =>
  cases hds
  have hvalue : b.toNat = 16 * m + k := by
    simp [hb, Nat.ofDigits_cons, Nat.add_comm]
  rw [← UInt8.ofNat_toNat (x := b), hvalue, byteSpelling_ofNat hm.1 hk.1, toLower_of_isDigit hm,
    toLower_of_isDigit hk]

theorem DenotesPairs.spelling {cs : List Char} {bytes : List UInt8}
    (h : DenotesPairs FullDigits cs bytes) : bytes.flatMap byteSpelling = cs.map Char.toLower := by
  induction h with
  | nil => rfl
  | cons hpair _ ih =>
    rw [List.flatMap_cons, byteSpelling_of_digits hpair.2, ih]
    rfl

end Text

/-! ## Tokens -/

open Text

theorem Pattern.HexPairs.denotes {cs : List Char} (h : HexPairs cs) :
    ∃ bytes, DenotesPairs FullDigits cs bytes := by
  induction h with
  | nil => exact ⟨[], .nil⟩
  | @cons a b cs ha hb _ ih =>
    obtain ⟨x, hx⟩ := digit?_of_isHexDigit ha
    obtain ⟨y, hy⟩ := digit?_of_isHexDigit hb
    obtain ⟨bytes, hbytes⟩ := ih
    have hdigits : List.Forall₂ (IsDigit 16) [a, b] [x, y] :=
      .cons (digit?_eq_some_iff.mp hx) (.cons (digit?_eq_some_iff.mp hy) .nil)
    have hn : Denotes 16 [a, b] _ := ⟨[x, y], hdigits, rfl⟩
    have hbyte := UInt8.toNat_ofNat_of_lt (hn.lt (by decide))
    exact ⟨_, .cons ⟨rfl, hbyte.symm ▸ hn⟩ hbytes⟩

section Tokens

variable {source raw : String} {span : Span}

theorem string_paired (h : .lexeme ⟨.string raw, span⟩ ∈ items source) :
    ∃ inner, raw.toList = '"' :: (inner ++ ['"']) ∧ Paired inner := by
  obtain ⟨text, rest, hreads⟩ := reads_of_mem_items h Token.noConfusion
  obtain ⟨tail, htail, htext⟩ := Pattern.mem_string.mp hreads.pattern
  obtain ⟨inner, rfl, hinner⟩ := exists_paired htail
  exact ⟨inner, (hreads.payload raw rfl).trans htext, hinner⟩

theorem hexString_spells (h : .lexeme ⟨.hexString raw, span⟩ ∈ items source) :
    ∃ digits bytes, raw.toList = 'h' :: 'e' :: 'x' :: '"' :: (digits ++ ['"']) ∧
      decodeHexString raw.toList = .ok bytes ∧ bytes.length = (raw.utf8ByteSize - 5) / 2 ∧
      bytes.flatMap byteSpelling = digits.map Char.toLower := by
  obtain ⟨text, rest, hreads⟩ := reads_of_mem_items h Token.noConfusion
  obtain ⟨digits, hpairs, htext⟩ := Pattern.mem_hexString.mp hreads.pattern
  have hraw : raw.toList = 'h' :: 'e' :: 'x' :: '"' :: (digits ++ ['"']) :=
    (hreads.payload raw rfl).trans htext
  obtain ⟨bytes, hbytes⟩ := hpairs.denotes
  have hloose := hbytes.mono fun _ _ _ _ hwidth hdigits => hdigits.loose hwidth
  refine ⟨digits, bytes, hraw, decodeHexString_eq_ok_iff.mpr ⟨digits, hraw, hloose⟩, ?_,
    hbytes.spelling⟩
  have hsize : raw.utf8ByteSize = 4 + (2 * bytes.length + 1) :=
    calc raw.utf8ByteSize
        = byteLength raw.toList := by rw [← utf8ByteSize_ofList, String.ofList_toList]
      _ = byteLength ("hex\"".toList ++ (digits ++ ['"'])) := congrArg byteLength hraw
      _ = 4 + (2 * bytes.length + 1) := by
        rw [byteLength_append, byteLength_append, hloose.byteLength_eq]
        rfl
  omega

end Tokens

/-! ## Bytes of strings -/

/-- A string token in a source is a text between quotes. The bytes that it is read as are those that
the rules give it with loose digits, and so those that they give it with full digits if there are
any. -/
theorem Text.decodeString_exact {source raw : String} {span : Span}
    (h : .lexeme ⟨.string raw, span⟩ ∈ items source) :
    ∃ inner, raw.toList = '"' :: (inner ++ ['"']) ∧
      (∀ bytes, decodeString raw.toList = .ok bytes ↔ DenotesBytes LooseDigits inner bytes) ∧
      ∀ bytes, DenotesBytes FullDigits inner bytes → decodeString raw.toList = .ok bytes := by
  obtain ⟨inner, hraw, -⟩ := string_paired h
  have hreads (bytes : List UInt8) :
      decodeString raw.toList = .ok bytes ↔ DenotesBytes LooseDigits inner bytes := by
    rw [hraw, decodeString_quoted, unescape_eq_ok_iff]
  refine ⟨inner, hraw, hreads, fun bytes hfull => (hreads bytes).mpr ?_⟩
  exact hfull.mono fun _ _ _ _ hwidth hdigits => hdigits.loose hwidth

/-- An escape of two digits that is read as the rules say. -/
theorem Text.fullEscape_decodes : .lexeme ⟨.string "\"\\x4a\"", ⟨0, 6⟩⟩ ∈ items "\"\\x4a\"" ∧
    decodeString "\"\\x4a\"".toList = .ok [0x4a] := by
  have htoken : .lexeme ⟨.string "\"\\x4a\"", ⟨0, 6⟩⟩ ∈ items "\"\\x4a\"" := by decide +kernel
  obtain ⟨inner, hraw, -, hfull⟩ := decodeString_exact htoken
  obtain rfl : inner = ['\\', 'x', '4', 'a'] :=
    (List.append_cancel_right (List.cons.inj hraw).2).symm
  refine ⟨htoken, hfull _ ?_⟩
  have hdigits : Denotes 16 ['4', 'a'] (0x4a : UInt8).toNat :=
    ⟨[4, 10], .cons ⟨by decide, .inl rfl⟩ (.cons ⟨by decide, .inl rfl⟩ .nil), rfl⟩
  have hfullDigits : FullDigits 2 ['4', 'a'] [] (0x4a : UInt8).toNat := ⟨rfl, hdigits⟩
  have hbyte : DenotesEscape FullDigits ['x', '4', 'a'] [0x4a] [] := .byte hfullDigits
  exact .escape hbyte .nil

theorem Text.DenotesEscape.fullByte {cs rest : List Char} {bytes : List UInt8}
    (h : DenotesEscape FullDigits ('x' :: cs) bytes rest) :
    ∃ n, FullDigits 2 (cs.take 2) (cs.drop 2) n := by
  generalize hcs : 'x' :: cs = w at h
  cases h with
  | mark h =>
    obtain rfl := (List.cons.inj hcs).1
    simp [escapeMarks] at h
  | @byte ds rest b h =>
    obtain rfl := (List.cons.inj hcs).2
    rw [← h.1, List.take_left, List.drop_left]
    exact ⟨b.toNat, h.1.symm ▸ h⟩
  | char h => exact absurd (List.cons.inj hcs).1 (by decide)

/-- The end of the string cuts an escape short that is read all the same. -/
theorem Text.shortEscape_decodes :
    .lexeme ⟨.string "\"\\x4\"", ⟨0, 5⟩⟩ ∈ items "\"\\x4\"" ∧
      decodeString "\"\\x4\"".toList = .ok [4] ∧
      ¬∃ bytes, DenotesBytes FullDigits ['\\', 'x', '4'] bytes := by
  refine ⟨by decide +kernel, by decide +kernel, fun ⟨bytes, h⟩ => ?_⟩
  cases h with
  | plain hc => exact hc rfl
  | escape h =>
    obtain ⟨n, hlength, -⟩ := h.fullByte
    exact absurd hlength (by decide)

/-! ## Errors -/

/-- What would be said about a literal without quotes, or with digits that are no pairs. -/
def misfitMessages : List String :=
  ["malformed string literal", "malformed hex string", "hex string needs an even number of digits"]

theorem notMem_misfitMessages {start : String} (rest : String)
    (hstart : ∀ m ∈ misfitMessages, ¬start.toList <+: m.toList) :
    start ++ rest ∉ misfitMessages := by
  intro hmem
  have hnot := hstart _ hmem
  rw [String.toList_append] at hnot
  exact hnot (List.prefix_append _ _)

namespace SourceError

theorem Cause.message_of_syntactic {cause : Cause} (h : cause.stage = .syntactic) :
    cause.message ∉ misfitMessages := by
  cases cause with
  | unexpectedText | badLiteral => cases h
  | expected what found =>
    have hmessage : (Cause.expected what found).message =
        "expected " ++ (what.description ++ (", found " ++ found.description)) := by
      rw [← String.append_assoc, ← String.append_assoc]
      rfl
    rw [hmessage]
    exact notMem_misfitMessages _ (by decide)
  | defaultNotLast => decide
  | switchWithoutCases => decide

theorem Cause.message_of_text (text : String) :
    (Cause.unexpectedText text).message ∉ misfitMessages := by
  have hmessage : (Cause.unexpectedText text).message =
      "unexpected character '" ++ (text ++ "'") := by
    rw [← String.append_assoc]
    rfl
  rw [hmessage]
  exact notMem_misfitMessages _ (by decide)

end SourceError

theorem refuses_of_mem_items {source : String} {l : Lexeme} (h : .lexeme l ∈ items source)
    {e : LiteralError} (hrefuses : l.token.Refuses e) : e ∈ escapeErrors := by
  obtain ⟨token, span⟩ := l
  cases token with
  | string raw =>
    obtain ⟨inner, hraw, -⟩ := string_paired h
    have hdecode : decodeString raw.toList = .error e := hrefuses
    rw [hraw, decodeString_quoted] at hdecode
    exact unescape_error hdecode
  | hexString raw =>
    obtain ⟨digits, bytes, -, hbytes, -⟩ := hexString_spells h
    cases hbytes.symm.trans hrefuses
  | _ => cases hrefuses

theorem SourceError.Lexical.message_notMem {source : String} {e : SourceError}
    (h : Lexical (items source) e) : e.message ∉ misfitMessages := by
  generalize hitems : items source = is at h
  cases h with
  | text ts text span after => exact Cause.message_of_text text
  | literal ts l after e hrefuses =>
    have hl : .lexeme l ∈ items source := hitems ▸ List.mem_append_right _ List.mem_cons_self
    have hescape := refuses_of_mem_items hl hrefuses
    have hmessages : ∀ e ∈ escapeErrors, e.message ∉ misfitMessages := by decide
    exact hmessages e hescape

namespace Parser

variable {α : Type} {p : Parser α} {L : Language Lexeme} {Q : α → α → Prop} {names : NameTable}

theorem Predictive.message_notMem (hp : Predictive p L Q) {source : String} {e : SourceError}
    (h : (whole p).parse names source = .error e) : e.message ∉ misfitMessages := by
  rcases hp.error_cases h with hlexical | ⟨ts, l, after, -, hblames, -, -⟩
  · exact hlexical.message_notMem
  · exact SourceError.Cause.message_of_syntactic hblames.stage

end Parser

/-! ## Main result -/

/-- The literals of a source have the forms that their decoders ask for. -/
structure LiteralsFit (names : NameTable) (source : String) : Prop where
  block : ∀ e, parseBlock names source = .error e → e.message ∉ misfitMessages
  object : ∀ e, parseSource names source = .error e → e.message ∉ misfitMessages
  /-- a backslash between quotes is never all that is left, neither by pairs nor for the decoder -/
  string : ∀ raw span, .lexeme ⟨.string raw, span⟩ ∈ items source →
    ∃ inner, raw.toList = '"' :: (inner ++ ['"']) ∧ Paired inner ∧ ¬Leaves inner ['\\']
  hexString : ∀ raw span, .lexeme ⟨.hexString raw, span⟩ ∈ items source →
    ∃ digits bytes, raw.toList = 'h' :: 'e' :: 'x' :: '"' :: (digits ++ ['"']) ∧
      decodeHexString raw.toList = .ok bytes ∧ bytes.length = (raw.utf8ByteSize - 5) / 2 ∧
      bytes.flatMap byteSpelling = digits.map Char.toLower

/-- The tokens of every source are literals that the decoders take for well formed. -/
theorem literals_fit (names : NameTable) (source : String) : LiteralsFit names source where
  block _ h := Parser.block_predictive.message_notMem h
  object _ h := Parser.objectOrBlock_predictive.message_notMem h
  string raw span h := by
    obtain ⟨inner, hraw, hpaired⟩ := string_paired h
    exact ⟨inner, hraw, hpaired, fun hleaves => not_paired_backslash (hleaves.paired hpaired)⟩
  hexString _ _ h := hexString_spells h

/-- An escaped quote does not end a string, and digits of either case are read. -/
example : (items "\"\\\"\"hex\"0aFf\"").length = 3 ∧
    decodeHexString "hex\"0aFf\"".toList = .ok [0x0a, 0xff] := by
  decide +kernel

end Yul
