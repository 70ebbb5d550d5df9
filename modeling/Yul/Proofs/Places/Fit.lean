import Yul.Proofs.Parallel.Objects
import Yul.Proofs.Places.Events
import Yul.Proofs.Places.Parser
import Yul.Proofs.Token.Tiles
import Yul.Token.Listing

/-!
# Every place can be shown

Whatever is said about a source is said of a place in it: a span whose ends stand in order, within
the source, and between characters (`places_fit`). The spans of items are such; spans that are
merged from them are; and an analysis makes up none of its own.
-/

namespace Yul

/-! ## Spans within a source -/

/-- A span that can be cut out of a source. -/
structure Span.FitsIn (s : Span) (source : String) : Prop where
  start_le_stop : s.start ≤ s.stop
  stop_le : s.stop ≤ source.utf8ByteSize
  /-- the first byte is that of a character, or the source ends there -/
  start_valid : String.Pos.Raw.IsValid source ⟨s.start⟩
  stop_valid : String.Pos.Raw.IsValid source ⟨s.stop⟩

/-- The bytes of the first characters of a source end between characters. -/
theorem isValid_byteLength {source : String} {before after : List Char}
    (h : source.toList = before ++ after) :
    String.Pos.Raw.IsValid source ⟨Text.byteLength before⟩ := by
  refine String.Pos.Raw.isValid_iff_exists_append.mpr
    ⟨String.ofList before, String.ofList after, ?_, ?_⟩
  · rw [← String.ofList_append, ← h, String.ofList_toList]
  · rw [← utf8ByteSize_ofList]
    rfl

namespace Span.FitsIn

variable {source : String} {s t : Span}

theorem of_append {before text after : List Char} (h : source.toList = before ++ (text ++ after)) :
    (Span.mk (Text.byteLength before) (Text.byteLength (before ++ text))).FitsIn source := by
  have hstop : String.Pos.Raw.IsValid source ⟨Text.byteLength (before ++ text)⟩ :=
    isValid_byteLength (h.trans (List.append_assoc _ _ _).symm)
  refine ⟨?_, hstop.le_utf8ByteSize, isValid_byteLength h, hstop⟩
  show Text.byteLength before ≤ Text.byteLength (before ++ text)
  rw [Text.byteLength_append]
  exact Nat.le_add_right _ _

theorem zero (source : String) : (Span.mk 0 0).FitsIn source :=
  of_append (show source.toList = [] ++ ([] ++ source.toList) from rfl)

theorem merge (hs : s.FitsIn source) (ht : t.FitsIn source) : (s.merge t).FitsIn source where
  start_le_stop := (Nat.min_le_left _ _).trans (hs.start_le_stop.trans (Nat.le_max_left _ _))
  stop_le := Nat.max_le.mpr ⟨hs.stop_le, ht.stop_le⟩
  start_valid := by
    rcases Nat.le_total s.start t.start with hle | hle
    · rw [Span.merge, Nat.min_eq_left hle]
      exact hs.start_valid
    · rw [Span.merge, Nat.min_eq_right hle]
      exact ht.start_valid
  stop_valid := by
    rcases Nat.le_total s.stop t.stop with hle | hle
    · rw [Span.merge, Nat.max_eq_right hle]
      exact ht.stop_valid
    · rw [Span.merge, Nat.max_eq_left hle]
      exact hs.stop_valid

end Span.FitsIn

/-- Every item of a source stands in it, and so does the end of the input. -/
theorem items_fit (source : String) : ∀ i ∈ items source, i.span.FitsIn source := by
  obtain ⟨is, hlocate, htiles⟩ := locate_tile [] source.toList
  rw [items, show (0 : Nat) = Text.byteLength [] from rfl, hlocate, List.forall_mem_append]
  refine ⟨fun i hi => ?_, List.forall_mem_singleton.mpr ?_⟩
  · obtain ⟨before, text, rest, hsource, hstands⟩ := htiles.stands i hi
    rw [hstands.span]
    exact .of_append hsource
  · have hsource : source.toList = source.toList ++ ([] ++ []) := by simp
    have hend := Span.FitsIn.of_append hsource
    rwa [List.append_nil] at hend

/-! ## Reading -/

/-- One place in a source, seen twice. -/
def Span.SameIn (source : String) (s s' : Span) : Prop :=
  s = s' ∧ s.FitsIn source

theorem mergeable_sameIn (source : String) : Mergeable (Span.SameIn source) where
  zero := ⟨rfl, .zero source⟩
  merge hs ht := ⟨congrArg₂ Span.merge hs.1 ht.1, hs.2.merge ht.2⟩

theorem items_sameIn (source : String) :
    List.Forall₂ (Item.Moved (Span.SameIn source)) (items source) (items source) := by
  refine List.forall₂_same.mpr fun i hi => ?_
  have hfits := items_fit source i hi
  cases i with
  | lexeme l => exact .lexeme ⟨rfl, rfl, hfits⟩
  | bad text span => exact .bad text ⟨rfl, hfits⟩

theorem lexemes_error {is : List Item} {e : SourceError} (h : lexemes is = .error e) :
    ∃ i ∈ is, e.span = i.span := by
  induction is with
  | nil => exact nomatch h
  | cons i is ih =>
    cases i with
    | bad text span => exact ⟨_, List.mem_cons_self, Except.error.inj h ▸ rfl⟩
    | lexeme l =>
      rw [lexemes] at h
      cases hrest : lexemes is with
      | ok ls =>
        rw [hrest] at h
        exact nomatch h
      | error e' =>
        rw [hrest] at h
        obtain ⟨i, hi, hspan⟩ := ih (hrest.trans h)
        exact ⟨i, List.mem_cons_of_mem _ hi, hspan⟩

theorem listTokens_error_fits {source : String} {e : SourceError}
    (h : listTokens source = .error e) : e.span.FitsIn source := by
  cases hread : lexemes (items source) with
  | ok ls =>
    rw [listTokens, hread] at h
    exact nomatch h
  | error e' =>
    rw [listTokens, hread] at h
    obtain ⟨i, hi, hspan⟩ := lexemes_error hread
    obtain rfl : e' = e := Except.error.inj h
    exact hspan ▸ items_fit source i hi

section Parse

variable {source : String} {names names' : NameTable}

theorem fits_of_readAlike {α : Type} {Q : α → α → Prop} {e : SourceError}
    (h : ReadAlike (Span.SameIn source) Q (.error e) (.error e)) : e.span.FitsIn source := by
  cases h with
  | error same => exact same.span.2

theorem parseSource_alike (names : NameTable) (source : String) :
    ReadAlike (Span.SameIn source)
      (fun found found' => found.1.Moved (Span.SameIn source) found'.1 ∧ found.2 = found'.2)
      (parseSource names source) (parseSource names source) :=
  (Parser.wholeObject_tracks (mergeable_sameIn source)).parse (mergeable_sameIn source) names
    (items_sameIn source)

theorem parseBlock_alike (names : NameTable) (source : String) :
    ReadAlike (Span.SameIn source)
      (fun found found' => found.1.Moved (Span.SameIn source) found'.1 ∧ found.2 = found'.2)
      (parseBlock names source) (parseBlock names source) :=
  (Parser.wholeBlock_tracks (mergeable_sameIn source)).parse (mergeable_sameIn source) names
    (items_sameIn source)

theorem parseSource_error_fits {e : SourceError} (h : parseSource names source = .error e) :
    e.span.FitsIn source :=
  fits_of_readAlike (h ▸ parseSource_alike names source)

theorem parseBlock_error_fits {e : SourceError} (h : parseBlock names source = .error e) :
    e.span.FitsIn source :=
  fits_of_readAlike (h ▸ parseBlock_alike names source)

theorem parseSource_sameIn {o : Object} (h : parseSource names source = .ok (o, names')) :
    o.Moved (Span.SameIn source) o := by
  have halike := h ▸ parseSource_alike names source
  cases halike with
  | ok value => exact value.1

theorem parseBlock_sameIn {b : Block} (h : parseBlock names source = .ok (b, names')) :
    b.Moved (Span.SameIn source) b := by
  have halike := h ▸ parseBlock_alike names source
  cases halike with
  | ok value => exact value.1

end Parse

/-! ## Objects -/

section Located

variable {R : Span → Span → Prop}

mutual

theorem Object.Moved.located {o o' : Object} (h : o.Moved R o') (path : String) :
    List.Forall₂ (fun x x' => x.1 = x'.1 ∧ x.2.Moved R x'.2) (o.located path)
      (o'.located path) := by
  match h with
  | .mk hcode hobjects hdata hspan =>
    rw [Object.located, Object.located]
    exact .cons ⟨rfl, .mk hcode hobjects hdata hspan⟩ (hobjects.located path)

theorem MovedObjects.located {os os' : List Object} (h : MovedObjects R os os') (path : String) :
    List.Forall₂ (fun x x' => x.1 = x'.1 ∧ x.2.Moved R x'.2) (locatedOfObjects path os)
      (locatedOfObjects path os') := by
  match h with
  | .nil => exact .nil
  | .cons ho hrest =>
    rw [locatedOfObjects, locatedOfObjects, ho.name_eq]
    exact List.rel_append (ho.located _) (hrest.located path)

end

theorem Object.Moved.code {o o' : Object} (h : o.Moved R o') : o.code.Moved R o'.code := by
  cases h with
  | mk hcode => exact hcode

end Located

/-! ## Analyzing -/

theorem diagnostics_fit {source : String} {b : Block} (hb : b.Moved (Span.SameIn source) b)
    (cfg : Setting) (record : Record) :
    ∀ d ∈ (analyze cfg record b).diagnostics, d.span.FitsIn source := by
  refine List.forall_mem_map.mpr fun f hf => ?_
  obtain ⟨_, -, hfits⟩ := hb.exists_of_mem_spans _ (span_of_mem_findings cfg record b hf)
  exact hfits

theorem parseSource_located {source : String} {names names' : NameTable} {o : Object}
    (h : parseSource names source = .ok (o, names')) :
    ∀ part ∈ o.located "", part.2.code.Moved (Span.SameIn source) part.2.code := by
  intro part hpart
  have hsame := (parseSource_sameIn h).located ""
  exact (List.forall₂_same.mp hsame part hpart).2.code

namespace Settings

variable (s : Settings) {source : String}

theorem analyzeSource_error_fits {e : SourceError} (h : s.analyzeSource source = .error e) :
    e.span.FitsIn source := by
  cases hparse : parseSource (.ofDialect s.dialect) source with
  | error e' =>
    rw [s.analyzeSource_eq_error hparse] at h
    exact Except.error.inj h ▸ parseSource_error_fits hparse
  | ok parsed =>
    rw [s.analyzeSource_eq hparse] at h
    exact nomatch h

theorem analyzeSource_objects_fit {o : Outcome} (h : s.analyzeSource source = .ok o) :
    ∀ a ∈ o.objects, ∀ d ∈ a.analysis.diagnostics, d.span.FitsIn source := by
  obtain ⟨object, names, hparse, rfl⟩ := s.eq_objectwise_of_analyzeSource h
  exact List.forall_mem_map.mpr fun part hpart =>
    diagnostics_fit (parseSource_located hparse part hpart) _ _

theorem analyzeSource_diagnostics_fit {o : Outcome} (h : s.analyzeSource source = .ok o) :
    ∀ d ∈ o.diagnostics, d.span.FitsIn source := by
  have hobjects := s.analyzeSource_objects_fit h
  obtain ⟨object, names, -, rfl⟩ := s.eq_objectwise_of_analyzeSource h
  rw [s.objectwise_diagnostics]
  intro d hd
  obtain ⟨a, ha, hd⟩ := List.mem_flatMap.mp hd
  exact hobjects a ha d hd

end Settings

/-- Whatever is said about a source is said of places in it. -/
structure PlacesFit (source : String) : Prop where
  items : ∀ i ∈ items source, i.span.FitsIn source
  listing : ∀ e, listTokens source = .error e → e.span.FitsIn source
  object : ∀ names e, parseSource names source = .error e → e.span.FitsIn source
  block : ∀ names e, parseBlock names source = .error e → e.span.FitsIn source
  /-- the code of every object, whatever it is analyzed with -/
  objectCode : ∀ names o names', parseSource names source = .ok (o, names') →
    ∀ part ∈ o.located "", ∀ cfg record, ∀ d ∈ (analyze cfg record part.2.code).diagnostics,
      d.span.FitsIn source
  blockCode : ∀ names b names', parseBlock names source = .ok (b, names') →
    ∀ cfg record, ∀ d ∈ (analyze cfg record b).diagnostics, d.span.FitsIn source
  /-- a source that cannot be analyzed -/
  failure : ∀ (s : Settings) e, s.analyzeSource source = .error e → e.span.FitsIn source
  outcome : ∀ (s : Settings) o, s.analyzeSource source = .ok o →
    ∀ d ∈ o.diagnostics, d.span.FitsIn source
  objects : ∀ (s : Settings) o, s.analyzeSource source = .ok o →
    ∀ a ∈ o.objects, ∀ d ∈ a.analysis.diagnostics, d.span.FitsIn source

/-- All places that are reported lie within the source and between characters. -/
theorem places_fit (source : String) : PlacesFit source where
  items := items_fit source
  listing _ := listTokens_error_fits
  object _ _ := parseSource_error_fits
  block _ _ := parseBlock_error_fits
  objectCode _ _ _ h part hpart := diagnostics_fit (parseSource_located h part hpart)
  blockCode _ _ _ h := diagnostics_fit (parseBlock_sameIn h)
  failure s _ := s.analyzeSource_error_fits
  outcome s _ := s.analyzeSource_diagnostics_fit
  objects s _ := s.analyzeSource_objects_fit

end Yul
