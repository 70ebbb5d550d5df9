import Yul.Proofs.Parse.Lexing
import Yul.Proofs.Token.Munch
import Yul.Token.Reader

/-!
# Tiles of a source

The items of a source stand one behind the other, and between them stand blanks and comments
(`items_tile`). Each token is the longest text from its place on that fits a pattern, and what it
carries is that text; a bad piece stands only where no pattern fits, and goes as far as `Broken`
says. A reader hands out the items one by one, and the end of the input from then on.
-/

namespace Yul

/-! ## What stands at a place -/

/-- The texts of a token. -/
def Token.pattern : Token → Language Char
  | keyword k => Pattern.lit k.text
  | punct p => Pattern.lit p.text
  | hexNumber _ => Pattern.hexNumber
  | decimalNumber _ => Pattern.decimalNumber
  | string _ => Pattern.string
  | hexString _ => Pattern.hexString
  | identifier _ => Pattern.identifier
  | endOfInput => 0

/-- Whether a text fits a pattern: that of a token, or of what stands between tokens. -/
def Fits (w : List Char) : Prop :=
  w ∈ Pattern.skipped ∨ ∃ t : Token, w ∈ t.pattern

/-- No longer text at the start of `text ++ rest` fits a pattern. -/
def Longest (text rest : List Char) : Prop :=
  ∀ w, w <+: text ++ rest → Fits w → w.length ≤ text.length

/-- A token that is read from `text`, with `rest` behind it. -/
structure Token.Reads (t : Token) (text rest : List Char) : Prop where
  pattern : text ∈ t.pattern
  payload : ∀ p, t.payload? = some p → p.toList = text
  keyword : ∀ k : Keyword, k.text.toList = text → t = .keyword k
  longest : Longest text rest

/-- No pattern fits at the start of a text, except for identifiers in front of the quote of what is
no hexadecimal string. -/
def Unreadable (text : List Char) : Prop :=
  ∀ w, w <+: text → Fits w → "hex\"".toList <+: text ∧ w ∈ Pattern.identifier

/-- A bad piece and what stands behind it: how far a piece goes that starts no token. -/
inductive Broken : List Char → List Char → Prop where
  /-- A comment without an end takes the whole text. -/
  | comment {w : List Char} : Broken ('/' :: '*' :: w) []
  /-- A string without an end goes as far as the line, but for a backslash that ends it. -/
  | string {w rest : List Char} (hbody : w ∈ Pattern.stringBody)
      (hstops : Pattern.StringStops rest) : Broken ('"' :: w) rest
  /-- A hexadecimal string without an end goes as far as its pairs of digits, but for a pair at the
  very end of the text. -/
  | hexString {ds rest : List Char} (hpairs : ds ∈ Pattern.digitPairs)
      (hstops : Pattern.PairsStop rest) (hrest : ds ≠ [] → rest ≠ []) :
      Broken ("hex\"".toList ++ ds) rest
  /-- Any other piece is a single character. -/
  | character {c : Char} {rest : List Char} (hcomment : ¬"/*".toList <+: c :: rest)
      (hquote : c ≠ '"') (hhex : ¬"hex\"".toList <+: c :: rest) : Broken [c] rest

/-- An item that stands between `before` and `rest` and is read from `text`. -/
structure Item.Stands (i : Item) (before text rest : List Char) : Prop where
  span : i.span = ⟨Text.byteLength before, Text.byteLength (before ++ text)⟩
  ne_nil : text ≠ []
  reads : match i with
    | .lexeme l => l.token.Reads text rest
    | .bad raw _ => raw.toList = text ∧ Unreadable (text ++ rest) ∧ Broken text rest

/-- The items of what stands behind `before`, with blanks and comments around them. -/
inductive Tiles : List Char → List Char → List Item → Prop where
  | nil {before : List Char} : Tiles before [] []
  | skip {before text rest : List Char} {is : List Item} (hskip : text ∈ Pattern.skipped)
      (hlongest : Longest text rest) (h : Tiles (before ++ text) rest is) :
      Tiles before (text ++ rest) is
  | item {before text rest : List Char} {i : Item} {is : List Item}
      (hi : i.Stands before text rest) (h : Tiles (before ++ text) rest is) :
      Tiles before (text ++ rest) (i :: is)

/-! ## Shapes and tokens -/

theorem Keyword.text_mem_identifier (k : Keyword) : k.text.toList ∈ Pattern.identifier := by
  have hstart : ∃ c v, k.text.toList = c :: v ∧ isNameStart c = true := by
    cases k <;> exact ⟨_, _, rfl, rfl⟩
  have hparts : k.text.toList.all isNamePart = true := by
    cases k <;> rfl
  obtain ⟨c, v, htext, hc⟩ := hstart
  rw [htext, List.all_eq_true, List.forall_mem_cons] at hparts
  exact Pattern.mem_identifier.mpr ⟨c, v, hc, hparts.2, htext⟩

theorem Fits.shape {w : List Char} (h : Fits w) : ∃ shape : Shape, w ∈ shape.pattern := by
  rcases h with h | ⟨t, h⟩
  · exact ⟨.trivia, h⟩
  · cases t with
    | keyword k => exact ⟨.word, Pattern.mem_lit.mp h ▸ k.text_mem_identifier⟩
    | punct p => exact ⟨.punct p, h⟩
    | hexNumber => exact ⟨.hex, h⟩
    | decimalNumber => exact ⟨.decimal, h⟩
    | string => exact ⟨.string, h⟩
    | hexString => exact ⟨.hexString, h⟩
    | identifier => exact ⟨.word, h⟩
    | endOfInput => exact absurd h (Language.notMem_zero _)

theorem longest_shapeOf {c : Char} {cs : List Char} (h : (shapeOf c cs).1 ≠ .unknown) :
    Longest (c :: cs.take (shapeOf c cs).2) (cs.drop (shapeOf c cs).2) := by
  intro w hstart hfits
  obtain ⟨shape, hw⟩ := hfits.shape
  rw [List.cons_append, List.take_append_drop] at hstart
  exact shapeOf_longest h hw hstart

theorem unreadable_of_unknown {c : Char} {cs : List Char} (h : (shapeOf c cs).1 = .unknown) :
    Unreadable (c :: cs) := by
  intro w hstart hfits
  obtain ⟨shape, hw⟩ := hfits.shape
  exact shapeOf_unknown h hw hstart

theorem broken_of_unknown {c : Char} {cs : List Char} (h : (shapeOf c cs).1 = .unknown) :
    Broken (c :: cs.take (shapeOf c cs).2) (cs.drop (shapeOf c cs).2) := by
  revert h
  fun_cases shapeOf c cs <;> intro h
  case case6 r _ _ _ _ =>
    obtain ⟨hpairs, hstops, hrest⟩ := Pattern.openHexLength_stops r
    rw [Nat.add_comm]
    refine .hexString hpairs hstops fun hne => hrest ?_
    rintro rfl
    exact hne rfl
  case case18 r _ _ _ _ =>
    rw [List.take_length, List.drop_length]
    exact .comment
  case case20 hlength =>
    obtain ⟨hbody, hstops⟩ := Pattern.openStringLength_stops hlength
    simp only [hlength]
    exact .string hbody hstops
  case case21 _ _ hstart _ _ _ _ _ _ hquote _ _ _ hcomment =>
    refine .character ?_ hquote ?_
    · rintro ⟨r, hr⟩
      obtain ⟨rfl, rfl⟩ := List.cons.inj hr
      exact hcomment r rfl rfl
    · rintro ⟨r, hr⟩
      obtain ⟨rfl, -⟩ := List.cons.inj hr
      exact hstart rfl
  case case19 hlength =>
    simp only [hlength] at h
    cases h
  all_goals cases h

theorem shapeOf_keyword {k : Keyword} {c : Char} {v : List Char} (h : k.text.toList = c :: v)
    (cs : List Char) : (shapeOf c cs).1 = .word := by
  cases k <;> (injection h with hc; subst hc; rfl)

theorem Keyword.ofText?_text (k : Keyword) : Keyword.ofText? k.text = some k := by
  cases k <;> rfl

theorem Keyword.text_of_ofText? {text : String} {k : Keyword} (h : Keyword.ofText? text = some k) :
    k.text = text := by
  have hfound : Keyword.all.find? (·.text == text) = some k := h
  have hmatch := List.find?_some hfound
  exact beq_iff_eq.mp hmatch

theorem Piece.item?_eq_none {p : Piece} {span : Span} (h : p.item? span = none) :
    p.shape = .trivia := by
  obtain ⟨shape, text⟩ := p
  cases shape with
  | trivia => rfl
  | word =>
    simp only [item?] at h
    split at h <;> cases h
  | _ => cases h

section Piece

variable {before : List Char} {c : Char} {cs : List Char} {shape : Shape} {n : Nat}

theorem fits_of_shapeOf (hshape : shapeOf c cs = (shape, n)) (hknown : shape ≠ .unknown) :
    c :: cs.take n ∈ shape.pattern ∧ Longest (c :: cs.take n) (cs.drop n) := by
  have hfst : (shapeOf c cs).1 = shape := congrArg Prod.fst hshape
  have hsnd : (shapeOf c cs).2 = n := congrArg Prod.snd hshape
  have hfits := shapeOf_fits (hfst ▸ hknown)
  have hlongest := longest_shapeOf (hfst ▸ hknown)
  rw [hsnd, hfst] at hfits
  rw [hsnd] at hlongest
  exact ⟨hfits, hlongest⟩

theorem reads_of_shapeOf (hshape : shapeOf c cs = (shape, n)) (hknown : shape ≠ .unknown)
    {t : Token} (hpattern : c :: cs.take n ∈ shape.pattern → c :: cs.take n ∈ t.pattern)
    (hpayload : ∀ p, t.payload? = some p → p.toList = c :: cs.take n)
    (hkeyword : shape = .word → ∀ k : Keyword, k.text.toList = c :: cs.take n → t = .keyword k) :
    t.Reads (c :: cs.take n) (cs.drop n) := by
  obtain ⟨hfits, hlongest⟩ := fits_of_shapeOf hshape hknown
  refine ⟨hpattern hfits, hpayload, fun k hk => hkeyword ?_ k hk, hlongest⟩
  exact (congrArg Prod.fst hshape).symm.trans (shapeOf_keyword hk cs)

/-- The item that a piece amounts to stands where the piece stands. -/
theorem stands_of_item? (hshape : shapeOf c cs = (shape, n)) {i : Item}
    (h : Piece.item? ⟨shape, c :: cs.take n⟩
      ⟨Text.byteLength before, Text.byteLength (before ++ c :: cs.take n)⟩ = some i) :
    i.Stands before (c :: cs.take n) (cs.drop n) := by
  refine ⟨Piece.span_of_item? h, List.cons_ne_nil _ _, ?_⟩
  have hword (k : Keyword) (htext : k.text.toList = c :: cs.take n) :
      Keyword.ofText? (String.ofList (c :: cs.take n)) = some k := by
    rw [← htext, String.ofList_toList, k.ofText?_text]
  cases shape with
  | trivia => cases h
  | unknown =>
    cases h
    have hunknown : (shapeOf c cs).1 = .unknown := congrArg Prod.fst hshape
    have hbroken := broken_of_unknown hunknown
    rw [hshape] at hbroken
    refine ⟨String.toList_ofList, ?_, hbroken⟩
    rw [List.cons_append, List.take_append_drop]
    exact unreadable_of_unknown hunknown
  | word =>
    simp only [Piece.item?] at h
    split at h
    · next k hk =>
      cases h
      have htext := Keyword.text_of_ofText? hk
      refine reads_of_shapeOf hshape Shape.noConfusion (fun _ => ?_)
        (fun _ hp => absurd hp (Option.some_ne_none _).symm) fun _ k' hk' => ?_
      · show _ = k.text.toList
        rw [htext, String.toList_ofList]
      · rw [hword k' hk'] at hk
        rw [Option.some.inj hk]
    · next hnone =>
      cases h
      refine reads_of_shapeOf hshape Shape.noConfusion id (fun p hp => ?_) fun _ k hk => ?_
      · rw [← Option.some.inj hp, String.toList_ofList]
      · rw [hword k hk] at hnone
        cases hnone
  | punct p =>
    cases h
    exact reads_of_shapeOf hshape Shape.noConfusion id
      (fun _ hp => absurd hp (Option.some_ne_none _).symm) Shape.noConfusion
  | decimal | hex | string | hexString =>
    cases h
    exact reads_of_shapeOf hshape Shape.noConfusion id
      (fun p hp => Option.some.inj hp ▸ String.toList_ofList) Shape.noConfusion

end Piece

theorem locate_tile (before cs : List Char) : ∃ is,
    locate (Text.byteLength before) (tile cs) =
      is ++ [.lexeme ⟨.endOfInput, ⟨Text.byteLength (before ++ cs), Text.byteLength (before ++ cs)⟩⟩] ∧
    Tiles before cs is := by
  fun_induction tile cs generalizing before with
  | case1 => exact ⟨[], by rw [List.append_nil]; rfl, .nil⟩
  | case2 c cs shape n hshape ih =>
    obtain ⟨is, hlocate, htiles⟩ := ih (before ++ c :: cs.take n)
    have htext : before ++ c :: cs.take n ++ cs.drop n = before ++ c :: cs := by
      rw [List.append_assoc, List.cons_append, List.take_append_drop]
    have hcut : c :: cs = (c :: cs.take n) ++ cs.drop n := by
      rw [List.cons_append, List.take_append_drop]
    rw [htext] at hlocate
    rw [locate, ← Text.byteLength_append, hlocate]
    cases hitem : Piece.item? ⟨shape, c :: cs.take n⟩
        ⟨Text.byteLength before, Text.byteLength (before ++ c :: cs.take n)⟩ with
    | none =>
      obtain rfl : shape = .trivia := Piece.item?_eq_none hitem
      obtain ⟨hskip, hlongest⟩ := fits_of_shapeOf hshape Shape.noConfusion
      refine ⟨is, rfl, ?_⟩
      rw [hcut]
      exact .skip hskip hlongest htiles
    | some i =>
      refine ⟨i :: is, rfl, ?_⟩
      rw [hcut]
      exact .item (stands_of_item? hshape hitem) htiles

/-! ## Order -/

theorem Item.exists_stands_append {i : Item} {before text rest : List Char}
    (h : ∃ behind mine after, rest = behind ++ (mine ++ after) ∧
      i.Stands (before ++ text ++ behind) mine after) :
    ∃ behind mine after, text ++ rest = behind ++ (mine ++ after) ∧
      i.Stands (before ++ behind) mine after := by
  obtain ⟨behind, mine, after, rfl, hstands⟩ := h
  rw [List.append_assoc before] at hstands
  exact ⟨text ++ behind, mine, after, (List.append_assoc _ _ _).symm, hstands⟩

namespace Tiles

variable {before cs : List Char} {is : List Item}

theorem le_start (h : Tiles before cs is) : ∀ i ∈ is, Text.byteLength before ≤ i.span.start := by
  induction h with
  | nil => exact List.forall_mem_nil _
  | skip _ _ _ ih =>
    intro i hi
    have hle := ih i hi
    rw [Text.byteLength_append] at hle
    omega
  | item hi _ ih =>
    have hstart := Nat.le_of_eq (congrArg Span.start hi.span).symm
    refine List.forall_mem_cons.mpr ⟨hstart, fun j hj => ?_⟩
    have hle := ih j hj
    rw [Text.byteLength_append] at hle
    omega

theorem pairwise (h : Tiles before cs is) : is.Pairwise fun i j => i.span.stop ≤ j.span.start := by
  induction h with
  | nil => exact .nil
  | skip _ _ _ ih => exact ih
  | item hi h ih =>
    refine .cons (fun j hj => ?_) ih
    rw [hi.span]
    exact h.le_start j hj

theorem stands (h : Tiles before cs is) : ∀ i ∈ is, ∃ behind text rest,
    cs = behind ++ (text ++ rest) ∧ i.Stands (before ++ behind) text rest := by
  induction h with
  | nil => exact List.forall_mem_nil _
  | skip _ _ _ ih => exact fun i hi => Item.exists_stands_append (ih i hi)
  | @item before text rest i is hi _ ih =>
    have hfirst : i.Stands (before ++ []) text rest := (List.append_nil before).symm ▸ hi
    exact List.forall_mem_cons.mpr
      ⟨⟨[], text, rest, rfl, hfirst⟩, fun j hj => Item.exists_stands_append (ih j hj)⟩

end Tiles

theorem Item.Stands.nonempty {i : Item} {before text rest : List Char}
    (h : i.Stands before text rest) : i.span.start < i.span.stop := by
  have hpos := byteLength_pos h.ne_nil
  rw [h.span, Text.byteLength_append]
  show Text.byteLength before < Text.byteLength before + Text.byteLength text
  omega

/-! ## Reading one by one -/

namespace Reader

/-- The item that is read after `n` others. -/
def nth (r : Reader) : Nat → Item
  | 0 => r.next.1
  | n + 1 => r.next.2.nth n

theorem nth_eq {r : Reader} (h : r.peeked = none) (n : Nat) :
    r.nth n = r.pending[n]?.getD r.endItem := by
  obtain ⟨source, pending, peeked⟩ := r
  obtain rfl : peeked = none := h
  induction n generalizing pending with
  | zero => cases pending <;> rfl
  | succ n ih =>
    cases pending with
    | nil => exact ih []
    | cons i rest => exact ih rest

end Reader

theorem utf8ByteSize_ofList (cs : List Char) :
    (String.ofList cs).utf8ByteSize = Text.byteLength cs := by
  show (String.ofList cs).toByteArray.size = _
  rw [String.toByteArray_ofList]
  induction cs with
  | nil => rfl
  | cons c cs ih =>
    rw [List.utf8Encode_cons, ByteArray.size_append, ih, List.utf8Encode_singleton,
      List.size_toByteArray, String.length_utf8EncodeChar, Text.byteLength_cons]

/-! ## Main result -/

/-- The items of a source are read one by one, and then the end of the input for ever. They tile the
source: each stands behind the one before it, on a text of its own that is not empty, and between
them stands nothing but blanks and comments. -/
theorem items_tile (source : String) :
    ∃ is, Tiles [] source.toList is ∧
      (∀ i ∈ is, ∃ before text rest, source.toList = before ++ (text ++ rest) ∧
        i.Stands before text rest ∧ i.span.start < i.span.stop) ∧
      (is.Pairwise fun i j => i.span.stop ≤ j.span.start) ∧
      ∀ n, (Reader.ofSource source).nth n =
        is[n]?.getD (.lexeme ⟨.endOfInput, ⟨source.utf8ByteSize, source.utf8ByteSize⟩⟩) := by
  obtain ⟨is, hlocate, htiles⟩ := locate_tile [] source.toList
  refine ⟨is, htiles, fun i hi => ?_, htiles.pairwise, fun n => ?_⟩
  · obtain ⟨before, text, rest, hsource, hstands⟩ := htiles.stands i hi
    exact ⟨before, text, rest, hsource, hstands, hstands.nonempty⟩
  · rw [Reader.nth_eq rfl]
    show (items source)[n]?.getD (.lexeme ⟨.endOfInput, _⟩) = _
    have hsize : source.utf8ByteSize = Text.byteLength source.toList := by
      rw [← utf8ByteSize_ofList, String.ofList_toList]
    have hitems : items source =
        is ++ [.lexeme ⟨.endOfInput, ⟨source.utf8ByteSize, source.utf8ByteSize⟩⟩] := by
      rw [hsize]
      exact hlocate
    rw [hitems]
    rcases Nat.lt_or_ge n is.length with hn | hn
    · rw [List.getElem?_append_left hn]
      rfl
    · rw [List.getElem?_append_right hn, List.getElem?_eq_none hn]
      cases n - is.length <;> rfl

/-- Zero ends in front of a letter that is no digit behind it, and the comment is no item. -/
theorem overlap_tiles :
    ∃ is, Tiles [] "x:=0x//y".toList is ∧ (is.Pairwise fun i j => i.span.stop ≤ j.span.start) ∧
      is[1]? = some (.lexeme ⟨.punct .assign, ⟨1, 3⟩⟩) ∧
      is[2]? = some (.lexeme ⟨.decimalNumber "0", ⟨3, 4⟩⟩) := by
  obtain ⟨is, htiles, -, hpairwise, hnth⟩ := items_tile "x:=0x//y"
  have hitem (n : Nat) (i : Item) (h : (Reader.ofSource "x:=0x//y").nth n = i)
      (hend : i ≠ .lexeme ⟨.endOfInput, ⟨8, 8⟩⟩) : is[n]? = some i := by
    have hget := (hnth n).symm.trans h
    cases hread : is[n]? with
    | none =>
      rw [hread] at hget
      exact absurd hget.symm hend
    | some j =>
      rw [hread] at hget
      exact congrArg some hget
  exact ⟨is, htiles, hpairwise, hitem 1 _ (by decide +kernel) (by decide),
    hitem 2 _ (by decide +kernel) (by decide)⟩

end Yul
