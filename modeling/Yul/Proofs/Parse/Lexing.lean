import Yul.Proofs.Parse.Reading

/-!
# The items of a source

`Lexes` says of which row of tokens a source is, and `ValidStrings` that the strings in a row of
tokens denote bytes by the rules. The items of a source end with the end of the input, which stands
nowhere else, and each starts behind the ones before it.
-/

namespace Yul

/-- The source is a row of tokens, without bad pieces in between. -/
def Lexes (source : String) (ts : List Lexeme) : Prop :=
  ∃ span, items source = ts.map Item.lexeme ++ [.lexeme ⟨.endOfInput, span⟩]

/-- The escapes in the strings among tokens are valid. -/
def ValidStrings (ts : List Lexeme) : Prop :=
  ∀ l ∈ ts, ∀ raw, l.token = .string raw → ∃ inner bytes, raw.toList = '"' :: (inner ++ ['"']) ∧
    Text.DenotesBytes Text.LooseDigits inner bytes

/-- Valid strings are those that can be decoded. -/
theorem validStrings_iff {ts : List Lexeme} : ValidStrings ts ↔
    ∀ l ∈ ts, ∀ raw, l.token = .string raw → ∃ bytes, Text.decodeString raw.toList = .ok bytes := by
  refine forall₂_congr fun l _ => forall₂_congr fun raw _ => ?_
  simp only [Text.decodeString_eq_ok_iff]
  exact exists_comm

theorem AllDecode.validStrings {ts : List Lexeme} (h : AllDecode ts) : ValidStrings ts := by
  intro l hl raw htoken
  have hdecodes := h l hl
  rw [htoken] at hdecodes
  obtain ⟨bytes, inner, hraw, hbytes⟩ := hdecodes
  exact ⟨inner, bytes, hraw, hbytes⟩

/-! ## Places -/

/-- Where an item stands. -/
def Item.span : Item → Span
  | lexeme l => l.span
  | bad _ span => span

theorem Piece.span_of_item? {p : Piece} {span : Span} {i : Item} (h : p.item? span = some i) :
    i.span = span := by
  obtain ⟨shape, text⟩ := p
  cases shape with
  | trivia => cases h
  | word =>
    simp only [item?] at h
    split at h <;> cases h <;> rfl
  | _ =>
    cases h
    rfl

theorem Piece.item?_ne_endOfInput {p : Piece} {span : Span} {i : Item} (h : p.item? span = some i)
    (place : Span) : i ≠ .lexeme ⟨.endOfInput, place⟩ := by
  rintro rfl
  obtain ⟨shape, text⟩ := p
  cases shape with
  | word =>
    simp only [item?] at h
    split at h <;> cases h
  | _ => cases h

theorem locate_ended (offset : Nat) (ps : List Piece) : Ended (locate offset ps) := by
  induction ps generalizing offset with
  | nil => exact .last _
  | cons p ps ih =>
    rw [locate]
    cases hitem : p.item? ⟨offset, offset + Text.byteLength p.text⟩ with
    | none => exact ih _
    | some i => exact .cons (Piece.item?_ne_endOfInput hitem) (ih _)

theorem items_ended (source : String) : Ended (items source) :=
  locate_ended 0 _

theorem le_start_of_mem_locate {offset : Nat} {ps : List Piece} {i : Item}
    (h : i ∈ locate offset ps) : offset ≤ i.span.start := by
  induction ps generalizing offset with
  | nil =>
    obtain rfl := List.mem_singleton.mp h
    exact Nat.le_refl _
  | cons p ps ih =>
    rcases List.mem_append.mp h with h | h
    · have hspan := Piece.span_of_item? (Option.mem_toList.mp h)
      exact Nat.le_of_eq (congrArg Span.start hspan.symm)
    · exact Nat.le_trans (Nat.le_add_right _ _) (ih h)

theorem byteLength_pos {cs : List Char} (h : cs ≠ []) : 0 < Text.byteLength cs := by
  obtain ⟨c, cs, rfl⟩ := List.exists_cons_of_ne_nil h
  exact Nat.add_pos_left c.utf8Size_pos _

theorem locate_sorted (offset : Nat) {ps : List Piece} (h : ∀ p ∈ ps, p.text ≠ []) :
    (locate offset ps).Pairwise fun i j => i.span.start < j.span.start := by
  induction ps generalizing offset with
  | nil => exact List.pairwise_singleton _ _
  | cons p ps ih =>
    rw [List.forall_mem_cons] at h
    refine List.pairwise_append.mpr ⟨?_, ih _ h.2, ?_⟩
    · cases p.item? ⟨offset, offset + Text.byteLength p.text⟩ with
      | none => exact .nil
      | some i => exact List.pairwise_singleton _ _
    · intro i hi j hj
      rw [Piece.span_of_item? (Option.mem_toList.mp hi)]
      have hstart := le_start_of_mem_locate hj
      have hpos := byteLength_pos h.1
      show offset < _
      omega

theorem items_sorted (source : String) :
    (items source).Pairwise fun i j => i.span.start < j.span.start :=
  locate_sorted 0 fun _ => text_ne_nil_of_mem_tile

theorem Lexes.sorted {source : String} {ts : List Lexeme} (h : Lexes source ts) :
    ts.Pairwise fun l m => l.span.start < m.span.start := by
  obtain ⟨span, hitems⟩ := h
  have hsorted := (List.pairwise_append.mp (hitems ▸ items_sorted source)).1
  rwa [List.pairwise_map] at hsorted

/-- A source is one row of tokens only. -/
theorem Lexes.unique {source : String} {ts us : List Lexeme} (h : Lexes source ts)
    (h' : Lexes source us) : ts = us := by
  obtain ⟨_, hts⟩ := h
  obtain ⟨_, hus⟩ := h'
  have hmap := (List.append_inj' (hts.symm.trans hus) rfl).1
  exact List.map_inj_right (fun _ _ => Item.lexeme.inj) |>.mp hmap

end Yul
