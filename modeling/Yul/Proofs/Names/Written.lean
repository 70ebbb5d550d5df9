import Yul.Proofs.Names.References
import Yul.Proofs.Parse.Faultless
import Yul.Proofs.Text.Lossy

/-!
# Names as they are written

The name of an object or of data is a text, and the source has a string literal for it.
`nameBytes?` finds the bytes of that literal. Texts are what the bytes are read as, so a reference to
data is accepted by its text and not by its bytes (`dataReferences_named`): two pieces that are not
UTF-8 may be read as one text (`garbledName_accepted`).
-/

namespace Yul

open Text

/-! ## Bytes of names -/

/-- The bytes of the string literal behind the token that starts at a byte of the source. -/
def nameBytes? (source : String) (start : Nat) : Option (List UInt8) :=
  match (items source).dropWhile (fun i => i.span.start ≠ start) with
  | _ :: .lexeme ⟨.string raw, _⟩ :: _ => (decodeString raw.toList).toOption
  | _ => none

/-- Whether the string literal behind the first token of `span` is read as `name`. -/
def IsWritten (source : String) (span : Span) (name : String) : Prop :=
  ∃ bytes, nameBytes? source span.start = some bytes ∧ decodeLossy bytes = name

/-- An object whose name is written in the source, and so are all the names inside it. -/
inductive Object.IsNamed (source : String) : Object → Prop where
  | mk {o : Object} (own : IsWritten source o.span o.name)
      (objects : ∀ inner ∈ o.objects, IsNamed source inner)
      (data : ∀ d ∈ o.data, IsWritten source d.span d.name) : IsNamed source o

/-- Tokens that stand one behind the other in the source. -/
def Passage (source : String) (ts : List Lexeme) : Prop :=
  ∃ before after, Lexes source (before ++ (ts ++ after))

namespace Passage

variable {source : String} {l : Lexeme} {ts us : List Lexeme}

theorem left (h : Passage source (ts ++ us)) : Passage source ts := by
  obtain ⟨before, after, hstands⟩ := h
  rw [List.append_assoc] at hstands
  exact ⟨before, us ++ after, hstands⟩

theorem right (h : Passage source (ts ++ us)) : Passage source us := by
  obtain ⟨before, after, hstands⟩ := h
  rw [List.append_assoc, ← List.append_assoc] at hstands
  exact ⟨before ++ ts, after, hstands⟩

theorem tail (h : Passage source (l :: ts)) : Passage source ts := by
  change Passage source ([l] ++ ts) at h
  exact h.right

theorem inOrder (h : Passage source ts) : InOrder ts := by
  obtain ⟨before, after, hstands⟩ := h
  exact InOrder.left (InOrder.right hstands.sorted)

theorem nameBytes?_eq {source raw : String} {place : Span} {bytes : List UInt8} {before us : List Item}
    (hitems : items source = before ++ .lexeme l :: .lexeme ⟨.string raw, place⟩ :: us)
    (hraw : decodeString raw.toList = .ok bytes) :
    nameBytes? source l.span.start = some bytes := by
  have hsorted := (List.pairwise_append.mp (hitems ▸ items_sorted source)).2.2
  have hbefore : ∀ i ∈ before, decide (i.span.start ≠ l.span.start) = true := by
    intro i hi
    exact decide_eq_true (Nat.ne_of_lt (hsorted i hi (.lexeme l) List.mem_cons_self))
  have hfound : (items source).dropWhile (fun i => i.span.start ≠ l.span.start) =
      .lexeme l :: .lexeme ⟨.string raw, place⟩ :: us := by
    rw [hitems, List.dropWhile_append_of_pos hbefore]
    exact List.dropWhile_cons_of_neg (by simp [Item.span])
  rw [nameBytes?, hfound]
  exact congrArg Except.toOption hraw

theorem isWritten {name : String} (h : Passage source (l :: (ts ++ us)))
    (hname : DerivesName ts name) : IsWritten source (spanOf (l :: (ts ++ us))) name := by
  have hstart := start_spanOf h.inOrder
  obtain ⟨before, after, span, hitems⟩ := h
  cases hname with
  | @mk raw bytes place hbytes =>
    refine ⟨bytes, ?_, rfl⟩
    simp only [List.map_append, List.map_cons, List.cons_append, List.nil_append,
      List.append_assoc] at hitems
    rw [hstart]
    exact nameBytes?_eq hitems (decodeString_eq_ok_iff.mpr hbytes)

end Passage

mutual

theorem DerivesObject.isNamed {source : String} {n : Nat} {ts : List Lexeme} {o : Object}
    (h : DerivesObject n ts o) (hp : Passage source ts) : o.IsNamed source := by
  match h with
  | .mk k opening word closing hname hcode hparts hts =>
    subst hts
    have hinner := hparts.areNamed hp.tail.right.tail.tail.right.left
    exact ⟨hp.isWritten hname, hinner.1, hinner.2⟩

theorem DerivesParts.areNamed {source : String} {n : Nat} {ts : List Lexeme}
    {objects : List Object} {data : List DataSection} (h : DerivesParts n ts objects data)
    (hp : Passage source ts) :
    (∀ inner ∈ objects, inner.IsNamed source) ∧ ∀ d ∈ data, IsWritten source d.span d.name := by
  match h with
  | .nil => exact ⟨List.forall_mem_nil _, List.forall_mem_nil _⟩
  | .object h hrest =>
    have hinner := hrest.areNamed hp.right
    exact ⟨List.forall_mem_cons.mpr ⟨h.isNamed hp.left, hinner.1⟩, hinner.2⟩
  | .data h hrest =>
    have hinner := hrest.areNamed hp.right
    refine ⟨hinner.1, List.forall_mem_cons.mpr ⟨?_, hinner.2⟩⟩
    cases h with
    | mk k l hname hbytes hts =>
      subst hts
      exact hp.left.isWritten hname

end

/-! ## Paths of bytes -/

/-- As `Object.PathTo`, by the bytes that are written in the source. -/
inductive Object.WrittenPath (source : String) : Object → List (List UInt8) → Prop where
  | object {o inner : Object} {bytes : List UInt8} (h : inner ∈ o.objects)
      (hbytes : nameBytes? source inner.span.start = some bytes) : WrittenPath source o [bytes]
  | data {o : Object} {d : DataSection} {bytes : List UInt8} (h : d ∈ o.data)
      (hbytes : nameBytes? source d.span.start = some bytes) : WrittenPath source o [bytes]
  | inside {o inner : Object} {bytes : List UInt8} {row : List (List UInt8)} (h : inner ∈ o.objects)
      (hbytes : nameBytes? source inner.span.start = some bytes)
      (hrow : WrittenPath source inner row) : WrittenPath source o (bytes :: row)

/-- Names with a dot between any two of them, in bytes. -/
def joinBytes (row : List (List UInt8)) : List UInt8 :=
  [46].intercalate row

/-- The bytes that the source declares for the code of an object: those of its own name, unless it is
empty, and of the paths into it. -/
def Object.Declares (source : String) (o : Object) (bytes : List UInt8) : Prop :=
  (o.name ≠ "" ∧ nameBytes? source o.span.start = some bytes) ∨
    ∃ row, o.WrittenPath source row ∧ bytes = joinBytes row

theorem decodeLossy_dot (as bs : List UInt8) :
    decodeLossy (as ++ 46 :: bs) = decodeLossy as ++ "." ++ decodeLossy bs := by
  rw [decodeLossy, decodeFrom_split (by decide) bs proper_none as, String.ofList_append,
    ← List.singleton_append, String.ofList_append, ← String.append_assoc]
  rfl

theorem decodeLossy_joinBytes (row : List (List UInt8)) :
    decodeLossy (joinBytes row) = joinPath (row.map decodeLossy) := by
  match row with
  | [] => simp [joinBytes, joinPath, decodeLossy, decodeFrom]
  | [bytes] => rw [joinBytes, List.intercalate_singleton, List.map_singleton, joinPath_singleton]
  | bytes :: next :: rest =>
    have hjoin : joinBytes (bytes :: next :: rest) = bytes ++ 46 :: joinBytes (next :: rest) := by
      rw [joinBytes, List.intercalate_cons_cons, List.append_assoc, List.singleton_append]
      rfl
    rw [hjoin, List.map_cons, joinPath_cons (by simp), ← decodeLossy_joinBytes (next :: rest)]
    exact decodeLossy_dot bytes _

theorem Object.PathTo.written {source : String} {o : Object} {names : List String}
    (h : o.PathTo names) (ho : o.IsNamed source) :
    ∃ row, o.WrittenPath source row ∧ row.map decodeLossy = names := by
  induction h with
  | object h =>
    obtain ⟨-, hobjects, -⟩ := ho
    obtain ⟨⟨bytes, hbytes, hname⟩, -, -⟩ := hobjects _ h
    exact ⟨[bytes], .object h hbytes, congrArg (· :: []) hname⟩
  | data h =>
    obtain ⟨-, -, hdata⟩ := ho
    obtain ⟨bytes, hbytes, hname⟩ := hdata _ h
    exact ⟨[bytes], .data h hbytes, congrArg (· :: []) hname⟩
  | inside h hpath ih =>
    obtain ⟨-, hobjects, -⟩ := ho
    obtain ⟨row, hrow, hnames⟩ := ih (hobjects _ h)
    obtain ⟨⟨bytes, hbytes, hname⟩, -, -⟩ := hobjects _ h
    exact ⟨bytes :: row, .inside h hbytes hrow, congrArg₂ (· :: ·) hname hnames⟩

theorem Object.exists_declares {source : String} {o : Object} (ho : o.IsNamed source) {name : String}
    (h : name ∈ o.dataNames) : ∃ bytes, o.Declares source bytes ∧ decodeLossy bytes = name := by
  rcases o.reads_of_mem_dataNames h with ⟨rfl, hne, -⟩ | ⟨names, hnames, rfl⟩
  · obtain ⟨⟨bytes, hbytes, hname⟩, -, -⟩ := ho
    exact ⟨bytes, .inl ⟨hne, hbytes⟩, hname⟩
  · obtain ⟨row, hrow, rfl⟩ := hnames.path.written ho
    exact ⟨_, .inr ⟨row, hrow, rfl⟩, decodeLossy_joinBytes row⟩

mutual

theorem Object.IsNamed.located {source : String} (path : String) (o : Object)
    (h : o.IsNamed source) : ∀ part ∈ o.located path, part.2.IsNamed source := by
  match o with
  | ⟨name, code, objects, data, span⟩ =>
    obtain ⟨-, hobjects, -⟩ := id h
    exact List.forall_mem_cons.mpr ⟨h, isNamed_locatedOfObjects path objects hobjects⟩

theorem isNamed_locatedOfObjects {source : String} (path : String) (objects : List Object)
    (h : ∀ o ∈ objects, o.IsNamed source) :
    ∀ part ∈ locatedOfObjects path objects, part.2.IsNamed source := by
  match objects with
  | [] => exact List.forall_mem_nil _
  | o :: rest =>
    obtain ⟨ho, hrest⟩ := List.forall_mem_cons.mp h
    exact List.forall_mem_append.mpr
      ⟨ho.located (innerPath path o.name) o, isNamed_locatedOfObjects path rest hrest⟩

end

/-- A name that the code of a part of a source can refer to is declared in the source. -/
theorem exists_declares_of_parseSource {names names' : NameTable} {source : String} {o : Object}
    (h : parseSource names source = .ok (o, names')) {part : String × Object}
    (hpart : part ∈ o.located "") {name : String} (hname : name ∈ part.2.dataNames) :
    ∃ bytes, part.2.Declares source bytes ∧ decodeLossy bytes = name := by
  obtain ⟨ts, hlexes, -, hderives⟩ := (Parser.parseSource_iff names source o).mp ⟨names', h⟩
  have hpassage : Passage source ts := ⟨[], [], by rwa [List.nil_append, List.append_nil]⟩
  cases hderives with
  | block =>
    -- a lone block has no names to refer to
    obtain rfl := List.mem_singleton.mp hpart
    exact absurd hname List.not_mem_nil
  | object h => exact Object.exists_declares ((h.isNamed hpassage).located "" o _ hpart) hname

/-! ## A name that is not UTF-8 -/

/-- The code refers to data by a byte that is not UTF-8, and the data has another such byte for a
name. -/
def garbledSource : String :=
  "object \"A\" \x7b code \x7b pop(datasize(\"\\xff\")) \x7d data \"\\xfe\" \"\" \x7d"

/-- The reference in `garbledSource`. -/
def garbledLiteral : Literal :=
  ⟨.bytes [0xff], none, ⟨33, 39⟩⟩

/-- The call with the reference in `garbledSource`. -/
def garbledCall : Expr :=
  .call ⟨"datasize", ⟨24, 32⟩⟩ [.literal garbledLiteral] ⟨24, 40⟩

/-- The object of `garbledSource`. -/
def garbled : Object :=
  let code : Block := ⟨0, [.expression (.call ⟨"pop", ⟨20, 23⟩⟩ [garbledCall] ⟨20, 41⟩)], ⟨18, 43⟩⟩
  ⟨"A", code, [], [⟨"\uFFFD", [], ⟨44, 58⟩⟩], ⟨0, 60⟩⟩

theorem decodeLossy_ff : decodeLossy [0xff] = "\uFFFD" := by
  simp [decodeLossy, decodeFrom, decodeFrom.restart, lead, replacement]

theorem decodeLossy_fe : decodeLossy [0xfe] = "\uFFFD" := by
  simp [decodeLossy, decodeFrom, decodeFrom.restart, lead, replacement]

theorem garbled_parses (names : NameTable) :
    ∃ names', parseSource names garbledSource = .ok (garbled, names') := by
  have hnameRaw : decodeString "\"A\"".toList = .ok [65] := eq_ok_of_toOption (by decide +kernel)
  have hdataRaw : decodeString "\"\\xfe\"".toList = .ok [0xfe] := eq_ok_of_toOption (by decide +kernel)
  have hliteralRaw : decodeString "\"\\xff\"".toList = .ok [0xff] :=
    eq_ok_of_toOption (by decide +kernel)
  have hemptyRaw : decodeString "\"\"".toList = .ok [] := eq_ok_of_toOption (by decide +kernel)
  have hname : decodeLossy [65] = "A" := by
    simp [decodeLossy, decodeFrom, decodeFrom.restart, lead]
  have hvalue : (Token.string "\"\\xff\"").HasValue (.bytes [0xff]) :=
    .bytes (decodeString_eq_ok_iff.mp hliteralRaw)
  have hbytes : (Token.string "\"\"").HasBytes [] := decodeString_eq_ok_iff.mp hemptyRaw
  have hliteral : DerivesLiteral _ garbledLiteral :=
    .mk ⟨.string "\"\\xff\"", ⟨33, 39⟩⟩ hvalue .none rfl
  have hsize : DerivesExpr _ _ :=
    .call ⟨"datasize", ⟨24, 32⟩⟩ ⟨32, 33⟩ ⟨39, 40⟩ (.some (.mk (.literal hliteral) .nil)) rfl
  have hpop : DerivesExpr _ _ :=
    .call ⟨"pop", ⟨20, 23⟩⟩ ⟨23, 24⟩ ⟨40, 41⟩ (.some (.mk hsize .nil)) rfl
  have hdata : DerivesData _ _ :=
    .mk ⟨44, 48⟩ ⟨.string "\"\"", ⟨56, 58⟩⟩
      (derivesName_of_decodes "\"\\xfe\"" _ ⟨49, 55⟩ hdataRaw decodeLossy_fe) hbytes rfl
  have hobject : DerivesObject 0 _ garbled :=
    .mk ⟨0, 6⟩ ⟨11, 12⟩ ⟨13, 17⟩ ⟨59, 60⟩
      (derivesName_of_decodes "\"A\"" "A" ⟨7, 10⟩ hnameRaw hname)
      (.mk ⟨18, 19⟩ ⟨42, 43⟩ (.cons (.expression hpop) .nil) rfl) (.data hdata .nil) rfl
  refine (Parser.parseSource_iff names _ _).mpr ⟨_, ⟨⟨60, 60⟩, ?_⟩, ?_, .object hobject⟩
  · decide +kernel
  · simp [validStrings_iff, Punct.lexeme, wordLexeme, Identifier.lexeme]
    exact ⟨⟨_, hnameRaw⟩, ⟨_, hliteralRaw⟩, ⟨_, hdataRaw⟩, ⟨_, hemptyRaw⟩⟩

theorem exists_builtin (name : Name) (kind : Option LiteralArgument)
    (h : (Builtin.find? name).any (fun b => b.literalArgument? 0 = kind ∧ b.since = none ∧
      b.lastIn = none ∧ b.deprecatedFrom = none) = true) :
    ∃ b, Builtin.find? name = some b ∧ b.literalArgument? 0 = kind ∧
      ∀ d : Dialect, d.builtinProblems b = [] := by
  obtain ⟨b, hfind, hb⟩ := (Option.any_eq_true _ _).mp h
  obtain ⟨hkind, hsince, hlast, hdeprecated⟩ := of_decide_eq_true hb
  refine ⟨b, hfind, hkind, fun d => ?_⟩
  simp [Dialect.builtinProblems, hsince, hlast, hdeprecated]

theorem garbled_refers : garbled.code.RefersTo garbledLiteral [0xff] := by
  obtain ⟨pop, hpop, hplain, -⟩ := exists_builtin "pop" none (by decide +kernel)
  obtain ⟨size, hsize, hkind, -⟩ :=
    exists_builtin "datasize" (some .dataName) (by decide +kernel)
  have hcall : garbledCall.RefersTo garbledLiteral [0xff] :=
    ⟨_, _, _, size, 0, .literal garbledLiteral, rfl, hsize, hkind, rfl, rfl⟩
  refine ⟨garbled.code, List.mem_cons_self, _, List.mem_cons_self, _, List.mem_cons_self,
    garbledCall, ?_, hcall⟩
  simp [Expr.parts, partsOfArguments, hpop, hplain, garbledCall]

theorem garbled_accepted (s : Settings) (name : String) (span : Span) :
    ⟨.unknownData name, span⟩ ∉ (s.alone ("", garbled)).analysis.findings := by
  intro h
  have hmark := mark_of_mem_findings h rfl
  obtain ⟨cfg, hcfg⟩ : ∃ cfg : Setting,
      cfg = { dialect := s.dialect, dataNames := garbled.dataNames ++ s.dataNames } := ⟨_, rfl⟩
  have hknown : decodeLossy [0xff] ∈ cfg.dataNames := by
    rw [hcfg, decodeLossy_ff]
    exact List.mem_append_left _ (by decide)
  rw [← hcfg] at hmark
  obtain ⟨pop, hpop, hplain, hpopFine⟩ := exists_builtin "pop" none (by decide +kernel)
  obtain ⟨size, hsize, hkind, hsizeFine⟩ :=
    exists_builtin "datasize" (some .dataName) (by decide +kernel)
  simp [garbled, garbledCall, garbledLiteral, Block.marks, openingMarks, functionsOf, marksOfStmts,
    Stmt.marks, Expr.marks, headMarks, marksOfArguments, stringMarks, Expr.string?, hpop, hsize,
    hplain, hkind, hpopFine, hsizeFine, marksOf, Dialect.writtenProblems, hknown] at hmark

/-! ## Main result -/

/-- A reference to data that is not found unknown is read as the same text as some bytes that the
source declares for the code around it. So the bytes are the same if both are UTF-8, or if the
reference is UTF-8 without a replacement character; and two references of UTF-8 that are read as what
is declared have the same bytes. -/
theorem dataReferences_named (s : Settings) (hs : s.dataNames = []) {names names' : NameTable}
    {source : String} {o : Object} (h : parseSource names source = .ok (o, names')) :
    ∃ outcome, s.analyzeSource source = .ok outcome ∧
      outcome.objects = (o.located "").map s.alone ∧
      ∀ part ∈ o.located "", ∀ l bytes, part.2.code.RefersTo l bytes →
        (∀ name, ⟨.unknownData name, l.span⟩ ∉ (s.alone part).analysis.findings) →
        ∃ declared, part.2.Declares source declared ∧ decodeLossy declared = decodeLossy bytes ∧
          (IsUtf8 bytes → IsUtf8 declared → declared = bytes) ∧
          (IsUtf8 bytes → replacement ∉ (decodeLossy bytes).toList → declared = bytes) ∧
          ∀ l' bytes', part.2.code.RefersTo l' bytes' → decodeLossy bytes' = decodeLossy declared →
            IsUtf8 bytes → IsUtf8 bytes' → bytes' = bytes := by
  obtain ⟨outcome, hanalyze, -, hobjects⟩ := s.analyzeSource_eq_ok h
  refine ⟨outcome, hanalyze, hobjects, fun part hpart l bytes hrefers haccepted => ?_⟩
  obtain ⟨_, _, -, hnumbered⟩ := parseSource_numbered h
  have hfault := s.alone_faultless "" o (hnumbered.ids ▸ List.nodup_range')
    _ (List.mem_map_of_mem hpart)
  have hknown : decodeLossy bytes ∈ part.2.dataNames ++ s.dataNames := hrefers.known hfault haccepted
  rw [hs, List.append_nil] at hknown
  obtain ⟨declared, hdeclared, htext⟩ := exists_declares_of_parseSource h hpart hknown
  refine ⟨declared, hdeclared, htext, ?_, ?_, ?_⟩
  · intro hbytes hutf8
    exact hutf8.eq_of_decodeLossy_eq hbytes htext
  · intro hbytes hplain
    have hutf8 : IsUtf8 declared := by
      refine isUtf8_of_replacement_notMem ?_
      rwa [← htext, decodeLossy, String.toList_ofList] at hplain
    exact hutf8.eq_of_decodeLossy_eq hbytes htext
  · intro l' bytes' _ htext' hbytes hbytes'
    exact hbytes'.eq_of_decodeLossy_eq hbytes (htext'.trans htext)

/-- The reference in `garbledSource` is read as the name of the data. -/
theorem garbled_named : ∃ declared, garbled.Declares garbledSource declared ∧
    decodeLossy declared = decodeLossy [0xff] := by
  obtain ⟨names, hparse⟩ := garbled_parses (.ofDialect {})
  obtain ⟨outcome, -, -, hnamed⟩ := dataReferences_named {} rfl hparse
  obtain ⟨declared, hdeclared, htext, -⟩ := hnamed ("", garbled) List.mem_cons_self garbledLiteral
    [0xff] garbled_refers fun name => garbled_accepted {} name _
  exact ⟨declared, hdeclared, htext⟩

/-- The reference in `garbledSource` is accepted, and its bytes are declared nowhere. -/
theorem garbledName_accepted :
    (∃ names, parseSource (.ofDialect {}) garbledSource = .ok (garbled, names)) ∧
      ("", garbled) ∈ garbled.located "" ∧ garbled.code.RefersTo garbledLiteral [0xff] ∧
      (∀ name, ⟨.unknownData name, garbledLiteral.span⟩ ∉
        (Settings.alone {} ("", garbled)).analysis.findings) ∧
      ¬garbled.Declares garbledSource [0xff] := by
  refine ⟨garbled_parses _, List.mem_cons_self, garbled_refers, fun _ => garbled_accepted {} _ _, ?_⟩
  have hown : nameBytes? garbledSource 0 = some [65] := by decide +kernel
  have hdata : nameBytes? garbledSource 44 = some [0xfe] := by decide +kernel
  intro h
  rcases h with ⟨-, h⟩ | ⟨row, h, hjoin⟩
  · exact absurd (hown.symm.trans h) (by decide)
  · cases h with
    | object h => exact absurd h List.not_mem_nil
    | inside h => exact absurd h List.not_mem_nil
    | data h hbytes =>
      obtain rfl := List.mem_singleton.mp h
      obtain rfl := Option.some.inj (hdata.symm.trans hbytes)
      exact absurd hjoin (by decide)

end Yul
