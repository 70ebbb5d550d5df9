import Yul.Proofs.Token.Patterns

/-!
# The longest match

The piece that is cut off at the start of a text fits the pattern of its shape (`shapeOf_fits`), and
no longer piece fits any pattern (`shapeOf_longest`). Where a piece starts no token, no pattern fits
at all, except that of identifiers in front of the quote of what is no hexadecimal string. A string
that is cut short goes as far as the characters that may stand in it (`openStringLength_stops`,
`openHexLength_stops`).
-/

namespace Yul

open Computability

/-! ## Passes over a text -/

theorem length_le_takeWhile {p : Char → Bool} {w : List Char} (h : ∀ c ∈ w, p c = true)
    (r : List Char) : w.length ≤ ((w ++ r).takeWhile p).length := by
  rw [List.takeWhile_append_of_pos h, List.length_append]
  exact Nat.le_add_right _ _

namespace Pattern

theorem HexPairs.length_eq {ds : List Char} (h : HexPairs ds) (r : List Char) :
    hexStringLength? (ds ++ '"' :: r) = some (ds.length + 1) := by
  induction h with
  | nil => rfl
  | @cons a b ds ha hb h ih =>
    rw [List.cons_append, List.cons_append, hexStringLength?]
    · rw [if_pos (by rw [ha, hb]; rfl), ih, List.length_cons, List.length_cons]
      exact congrArg some (Nat.add_comm 2 (ds.length + 1))
    · rintro rfl
      cases ha

theorem hexPairs_of_hexStringLength? {cs : List Char} {n : Nat}
    (h : hexStringLength? cs = some n) : ∃ ds, cs.take n = ds ++ ['"'] ∧ HexPairs ds := by
  fun_induction hexStringLength? cs generalizing n with
  | case1 cs =>
    obtain rfl := Option.some.inj h
    exact ⟨[], rfl, .nil⟩
  | case2 a b cs _ hdigits ih =>
    obtain ⟨m, hm, rfl⟩ := Option.map_eq_some_iff.mp h
    obtain ⟨ds, htake, hpairs⟩ := ih hm
    rw [Bool.and_eq_true] at hdigits
    refine ⟨a :: b :: ds, ?_, .cons hdigits.1 hdigits.2 hpairs⟩
    rw [Nat.add_comm, List.take_succ_cons, List.take_succ_cons, htake]
    rfl
  | case3 => cases h
  | case4 => cases h

theorem StringTail.length_eq {w : List Char} (h : StringTail w) (r : List Char) :
    stringLength? (w ++ r) = some w.length := by
  induction h with
  | close => rfl
  | @plain c w hquote hslash hline h ih =>
    rw [List.cons_append, stringLength?]
    · rw [if_neg (by simp [hline, hslash]), ih, List.length_cons, Nat.add_comm]
      rfl
    · exact hquote
    · rintro _ _ rfl
      exact absurd rfl hslash
  | @escape c w hline h ih =>
    rw [List.cons_append, List.cons_append, stringLength?, if_neg hline, ih, List.length_cons,
      List.length_cons]
    exact congrArg some (Nat.add_comm 2 w.length)

theorem stringTail_of_length? {cs : List Char} {n : Nat} (h : stringLength? cs = some n) :
    StringTail (cs.take n) := by
  fun_induction stringLength? cs generalizing n with
  | case1 cs =>
    obtain rfl := Option.some.inj h
    exact .close
  | case3 c cs hline ih =>
    obtain ⟨m, hm, rfl⟩ := Option.map_eq_some_iff.mp h
    rw [Nat.add_comm, List.take_succ_cons, List.take_succ_cons]
    exact .escape hline (ih hm)
  | case5 c cs hquote hslash hplain ih =>
    obtain ⟨m, hm, rfl⟩ := Option.map_eq_some_iff.mp h
    simp only [Bool.or_eq_true, decide_eq_true_eq, not_or] at hplain
    rw [Nat.add_comm, List.take_succ_cons]
    exact .plain hquote hplain.2 hplain.1 (ih hm)
  | case2 | case4 | case6 => cases h

theorem commentLength?_cons {c : Char} {cs : List Char} (h : c = '*' → ∀ r, cs ≠ '/' :: r) :
    commentLength? (c :: cs) = (commentLength? cs).map (1 + ·) := by
  rw [commentLength?]
  exact fun r hc hcs => h hc r hcs

theorem CommentTail.length_eq {star : Bool} {w : List Char} (h : CommentTail star w)
    (r : List Char) :
    match star with
    | false => commentLength? (w ++ r) = some w.length
    | true => commentLength? ('*' :: (w ++ r)) = some (1 + w.length) := by
  induction h with
  | @plain c w hstar h ih =>
    show commentLength? (c :: (w ++ r)) = some (w.length + 1)
    rw [commentLength?_cons fun hc => absurd hc hstar, ih, Nat.add_comm]
    rfl
  | @star star w h ih =>
    cases star with
    | false => exact ih.trans (congrArg some (Nat.add_comm 1 w.length))
    | true =>
      show commentLength? ('*' :: '*' :: (w ++ r)) = some (1 + (w.length + 1))
      rw [commentLength?_cons fun _ _ => by simp, ih, Nat.add_comm w.length]
      rfl
  | @other c w hslash hstar h ih =>
    show commentLength? ('*' :: c :: (w ++ r)) = some (1 + (w.length + 1))
    rw [commentLength?_cons fun _ _ heq => hslash (List.cons.inj heq).1,
      commentLength?_cons fun hc => absurd hc hstar, ih, Nat.add_comm w.length]
    rfl
  | close => rfl

/-- A tail that does not end at once is also a tail behind an asterisk. -/
theorem CommentTail.behind_star {w : List Char} (h : CommentTail false w)
    (hslash : ∀ r, w ≠ '/' :: r) : CommentTail true w := by
  cases h with
  | @plain c w hstar h => exact .other (fun hc => hslash w (hc ▸ rfl)) hstar h
  | star h => exact .star h

theorem commentTail_of_length? {cs : List Char} {n : Nat} (h : commentLength? cs = some n) :
    CommentTail false (cs.take n) := by
  fun_induction commentLength? cs generalizing n with
  | case1 cs =>
    obtain rfl := Option.some.inj h
    exact .star .close
  | case2 c cs hclose ih =>
    obtain ⟨m, hm, rfl⟩ := Option.map_eq_some_iff.mp h
    rw [Nat.add_comm, List.take_succ_cons]
    by_cases hstar : c = '*'
    · subst hstar
      refine .star ((ih hm).behind_star fun r htake => ?_)
      obtain ⟨r', hcs⟩ : ∃ r', cs = '/' :: r' := by
        cases cs with
        | nil => cases hm
        | cons d cs =>
          cases m with
          | zero => cases htake
          | succ m => exact ⟨cs, by rw [(List.cons.inj htake).1]⟩
      exact hclose r' rfl hcs
    · exact .plain hstar (ih hm)
  | case3 => cases h

/-! ## Pieces without an end -/

theorem append_mem_kstar {l : Language Char} {v w : List Char} (hv : v ∈ l) (hw : w ∈ l∗) :
    v ++ w ∈ l∗ := by
  rw [← Language.one_add_self_mul_kstar_eq_kstar]
  exact .inr (Language.append_mem_mul hv hw)

theorem plain_mem_stringBody {c : Char} {w : List Char} (hquote : c ≠ '"') (hslash : c ≠ '\\')
    (hline : c ≠ '\n') (h : w ∈ stringBody) : c :: w ∈ stringBody :=
  append_mem_kstar (.inl ⟨c, by simp [hquote, hslash, hline], rfl⟩) h

theorem escape_mem_stringBody {c : Char} {w : List Char} (hline : c ≠ '\n') (h : w ∈ stringBody) :
    '\\' :: c :: w ∈ stringBody :=
  append_mem_kstar (.inr (Language.append_mem_mul rfl ⟨c, decide_eq_true hline, rfl⟩)) h

/-- What stands behind a string that is cut short: the end of the text or of the line, or a backslash
in front of either. -/
def StringStops (rest : List Char) : Prop :=
  rest = [] ∨ rest = ['\\'] ∨ (∃ r, rest = '\n' :: r) ∨ ∃ r, rest = '\\' :: '\n' :: r

/-- What stands behind the pairs of a hexadecimal string that is cut short: no further pair, unless
it is the last of the text. -/
def PairsStop (rest : List Char) : Prop :=
  ∀ a b c r, rest = a :: b :: c :: r → ¬(isHexDigit a = true ∧ isHexDigit b = true)

theorem openStringLength_stops {cs : List Char} (h : stringLength? cs = none) :
    cs.take (openStringLength cs) ∈ stringBody ∧
      StringStops (cs.drop (openStringLength cs)) := by
  fun_induction openStringLength cs with
  | case1 cs => exact ⟨Language.nil_mem_kstar _, .inr (.inr (.inr ⟨cs, rfl⟩))⟩
  | case2 c cs hline ih =>
    rw [stringLength?, if_neg hline, Option.map_eq_none_iff] at h
    obtain ⟨hbody, hstops⟩ := ih h
    rw [Nat.add_comm, List.take_succ_cons, List.take_succ_cons]
    exact ⟨escape_mem_stringBody hline hbody, hstops⟩
  | case3 c cs hescape hend =>
    refine ⟨Language.nil_mem_kstar _, ?_⟩
    simp only [Bool.or_eq_true, decide_eq_true_eq] at hend
    rcases hend with rfl | rfl
    · exact .inr (.inr (.inl ⟨cs, rfl⟩))
    · cases cs with
      | nil => exact .inr (.inl rfl)
      | cons d cs => exact (hescape d cs rfl rfl).elim
  | case4 c cs hescape hplain ih =>
    have hquote : c ≠ '"' := by
      rintro rfl
      cases h
    rw [stringLength?, if_neg hplain, Option.map_eq_none_iff] at h
    · obtain ⟨hbody, hstops⟩ := ih h
      simp only [Bool.or_eq_true, decide_eq_true_eq, not_or] at hplain
      rw [Nat.add_comm, List.take_succ_cons]
      exact ⟨plain_mem_stringBody hquote hplain.2 hplain.1 hbody, hstops⟩
    · exact hquote
    · exact hescape
  | case5 => exact ⟨Language.nil_mem_kstar _, .inl rfl⟩

theorem openHexLength_stops (cs : List Char) :
    cs.take (openHexLength cs) ∈ digitPairs ∧ PairsStop (cs.drop (openHexLength cs)) ∧
      (cs ≠ [] → cs.drop (openHexLength cs) ≠ []) := by
  rw [← hexPairs_eq]
  fun_induction openHexLength cs with
  | case1 a b c cs hdigits ih =>
    obtain ⟨hpairs, hstops, hrest⟩ := ih
    rw [Bool.and_eq_true] at hdigits
    rw [Nat.add_comm, List.take_succ_cons, List.take_succ_cons]
    exact ⟨.cons hdigits.1 hdigits.2 hpairs, hstops, fun _ => hrest (List.cons_ne_nil c cs)⟩
  | case2 a b c cs hdigits =>
    refine ⟨.nil, ?_, id⟩
    rintro _ _ _ _ ⟨⟩
    rwa [← Bool.and_eq_true]
  | case3 cs hshort => exact ⟨.nil, fun a b c r h => (hshort a b c r h).elim, id⟩

end Pattern

/-! ## Pieces fit -/

/-- The texts of a shape. -/
def Shape.pattern : Shape → Language Char
  | trivia => Pattern.skipped
  | punct p => Pattern.lit p.text
  | decimal => Pattern.decimalNumber
  | hex => Pattern.hexNumber
  | string => Pattern.string
  | hexString => Pattern.hexString
  | word => Pattern.identifier
  | unknown => 0

section Fits

open Pattern

variable {c : Char} {cs : List Char}

theorem take_length_takeWhile (p : Char → Bool) (cs : List Char) :
    cs.take (cs.takeWhile p).length = cs.takeWhile p :=
  (List.prefix_iff_eq_take.mp (List.takeWhile_prefix p)).symm

theorem forall_mem_takeWhile (p : Char → Bool) (cs : List Char) :
    ∀ c ∈ cs.takeWhile p, p c = true :=
  List.all_eq_true.mp List.all_takeWhile

theorem takeWhile_mem_plus {p : Char → Bool} (hc : p c = true) (cs : List Char) :
    c :: cs.take (cs.takeWhile p).length ∈ plus (one p) := by
  rw [take_length_takeWhile]
  exact mem_plus_one.mpr ⟨List.cons_ne_nil _ _,
    List.forall_mem_cons.mpr ⟨hc, forall_mem_takeWhile p cs⟩⟩

theorem shapeOf_fits (h : (shapeOf c cs).1 ≠ .unknown) :
    c :: cs.take (shapeOf c cs).2 ∈ (shapeOf c cs).1.pattern := by
  revert h
  fun_cases shapeOf c cs <;> intro h
  case case1 hc => exact .inl (.inl (takeWhile_mem_plus hc cs))
  case case2 => exact takeWhile_mem_plus (p := isDigit) rfl []
  case case3 r _ _ hdigits =>
    rw [Nat.add_comm, List.take_succ_cons, take_length_takeWhile]
    exact mem_lit_mul.mpr ⟨_, mem_plus_one.mpr ⟨hdigits, forall_mem_takeWhile _ _⟩, rfl⟩
  case case4 hc _ => exact takeWhile_mem_plus hc cs
  case case5 hlength _ _ _ =>
    obtain ⟨ds, htake, hpairs⟩ := hexPairs_of_hexStringLength? hlength
    refine mem_hexString.mpr ⟨ds, hpairs, ?_⟩
    rw [Nat.add_comm, List.take_succ_cons, List.take_succ_cons, List.take_succ_cons, htake]
  case case7 hc _ =>
    rw [take_length_takeWhile]
    exact mem_one_mul.mpr ⟨c, _, hc, mem_kstar_one.mpr (forall_mem_takeWhile _ _), rfl⟩
  case case16 r _ _ _ =>
    refine .inl (.inr (mem_lit_mul.mpr ⟨_, mem_kstar_one.mpr (forall_mem_takeWhile _ r), ?_⟩))
    rw [Nat.add_comm, List.take_succ_cons, take_length_takeWhile]
    rfl
  case case17 hlength _ _ _ =>
    refine .inr (mem_blockComment.mpr ⟨_, commentTail_of_length? hlength, ?_⟩)
    rw [Nat.add_comm, List.take_succ_cons]
  case case19 n _ _ _ hlength =>
    simp only [hlength] at h ⊢
    exact mem_string.mpr ⟨_, stringTail_of_length? hlength, rfl⟩
  case case20 hlength =>
    simp only [hlength] at h
    exact absurd rfl h
  case case6 | case18 | case21 => exact absurd rfl h
  all_goals rfl

end Fits

/-! ## No longer piece fits -/

/-- The piece that is cut off at the start of `w ++ r` is blank or starts a token, and holds `w`. -/
def Munched : List Char → List Char → Prop
  | [], _ => False
  | c :: v, r => (shapeOf c (v ++ r)).1 ≠ .unknown ∧ v.length ≤ (shapeOf c (v ++ r)).2

section Longest

open Pattern

variable {w : List Char}

theorem munched_of_shape {c : Char} {v r : List Char} {shape : Shape} {n : Nat}
    (hshape : shapeOf c (v ++ r) = (shape, n)) (hknown : shape ≠ .unknown)
    (hlength : v.length ≤ n) : Munched (c :: v) r := by
  rw [Munched, hshape]
  exact ⟨hknown, hlength⟩

theorem not_isBlank_of_isDigit {c : Char} (h : isDigit c = true) : ¬isBlank c = true := by
  intro hblank
  simp only [isBlank, Bool.or_eq_true, decide_eq_true_eq] at hblank
  rcases hblank with (((rfl | rfl) | rfl) | rfl) | rfl <;> exact absurd h (by decide)

theorem not_isBlank_of_isNameStart {c : Char} (h : isNameStart c = true) : ¬isBlank c = true := by
  intro hblank
  simp only [isBlank, Bool.or_eq_true, decide_eq_true_eq] at hblank
  rcases hblank with (((rfl | rfl) | rfl) | rfl) | rfl <;> exact absurd h (by decide)

theorem not_isDigit_of_isNameStart {c : Char} (h : isNameStart c = true) : ¬isDigit c = true := by
  intro hdigit
  simp only [isNameStart, isDigit, Bool.or_eq_true, Bool.and_eq_true, decide_eq_true_eq] at h hdigit
  rcases h with ((h | h) | rfl) | rfl
  · exact absurd (Char.le_trans h.1 hdigit.2) (by decide)
  · exact absurd (Char.le_trans h.1 hdigit.2) (by decide)
  · exact absurd hdigit (by decide)
  · exact absurd hdigit (by decide)

theorem munched_blanks (h : w ∈ blanks) (r : List Char) : Munched w r := by
  obtain ⟨hne, hblank⟩ := mem_plus_one.mp h
  obtain ⟨c, v, rfl⟩ := List.exists_cons_of_ne_nil hne
  rw [List.forall_mem_cons] at hblank
  have hshape : shapeOf c (v ++ r) = (.trivia, ((v ++ r).takeWhile isBlank).length) :=
    if_pos hblank.1
  exact munched_of_shape hshape Shape.noConfusion (length_le_takeWhile hblank.2 r)

theorem munched_lineComment (h : w ∈ lineComment) (r : List Char) : Munched w r := by
  obtain ⟨v, hv, rfl⟩ := mem_lit_mul.mp h
  have hlength := length_le_takeWhile (mem_kstar_one.mp hv) r
  have hshape : shapeOf '/' ('/' :: (v ++ r)) =
      (.trivia, 1 + ((v ++ r).takeWhile (· ≠ '\n')).length) := rfl
  refine munched_of_shape hshape Shape.noConfusion ?_
  show v.length + 1 ≤ _
  omega

theorem shapeOf_blockComment {v : List Char} (hv : CommentTail false v) (r : List Char) :
    shapeOf '/' ('*' :: (v ++ r)) = (.trivia, 1 + v.length) := by
  have hlength : commentLength? (v ++ r) = some v.length := hv.length_eq r
  simp [shapeOf, isBlank, isDigit, isNameStart, hlength]

theorem munched_blockComment (h : w ∈ blockComment) (r : List Char) : Munched w r := by
  obtain ⟨v, hv, rfl⟩ := mem_blockComment.mp h
  exact munched_of_shape (shapeOf_blockComment hv r) Shape.noConfusion
    (Nat.le_of_eq (Nat.add_comm _ _))

theorem munched_punct {p : Punct} (h : w ∈ lit p.text) (r : List Char) : Munched w r := by
  obtain rfl := h
  cases p with
  | colon =>
    -- the colon may be the start of an assignment mark
    cases r with
    | nil => exact ⟨Shape.noConfusion, Nat.le_refl 0⟩
    | cons d r =>
      by_cases hd : d = '='
      · subst hd
        exact ⟨Shape.noConfusion, Nat.zero_le 1⟩
      · have hshape : shapeOf ':' (d :: r) = (.punct .colon, 0) := by
          simp [shapeOf, isBlank, isDigit, isNameStart, hd]
        exact munched_of_shape hshape Shape.noConfusion (Nat.le_refl 0)
  | assign | arrow => exact ⟨Shape.noConfusion, Nat.le_refl 1⟩
  | _ => exact ⟨Shape.noConfusion, Nat.zero_le _⟩

theorem shapeOf_digit {c : Char} (hc : isDigit c = true) (cs : List Char) :
    (shapeOf c cs).1 ≠ .unknown ∧ (cs.takeWhile isDigit).length ≤ (shapeOf c cs).2 := by
  unfold shapeOf
  rw [if_neg (not_isBlank_of_isDigit hc), if_pos hc]
  split
  · split
    · exact ⟨Shape.noConfusion, Nat.le_refl _⟩
    · exact ⟨Shape.noConfusion, Nat.zero_le _⟩
  · exact ⟨Shape.noConfusion, Nat.le_refl _⟩

theorem munched_decimalNumber (h : w ∈ decimalNumber) (r : List Char) : Munched w r := by
  obtain ⟨hne, hdigits⟩ := mem_plus_one.mp h
  obtain ⟨c, v, rfl⟩ := List.exists_cons_of_ne_nil hne
  rw [List.forall_mem_cons] at hdigits
  obtain ⟨hshape, hlength⟩ := shapeOf_digit hdigits.1 (v ++ r)
  exact ⟨hshape, (length_le_takeWhile hdigits.2 r).trans hlength⟩

theorem munched_hexNumber (h : w ∈ hexNumber) (r : List Char) : Munched w r := by
  obtain ⟨v, hv, rfl⟩ := mem_lit_mul.mp h
  obtain ⟨hne, hdigits⟩ := mem_plus_one.mp hv
  have hlength := length_le_takeWhile hdigits r
  have hshape : shapeOf '0' ('x' :: (v ++ r)) =
      (.hex, 1 + ((v ++ r).takeWhile isHexDigit).length) := by
    cases htake : (v ++ r).takeWhile isHexDigit with
    | nil =>
      rw [htake] at hlength
      exact absurd (List.eq_nil_of_length_eq_zero (Nat.le_zero.mp hlength)) hne
    | cons d ds => simp [shapeOf, isBlank, isDigit, htake]
  refine munched_of_shape hshape Shape.noConfusion ?_
  show v.length + 1 ≤ _
  omega

theorem shapeOf_string {v : List Char} (hv : StringTail v) (r : List Char) :
    shapeOf '"' (v ++ r) = (.string, v.length) := by
  simp [shapeOf, isBlank, isDigit, isNameStart, hv.length_eq]

theorem munched_string (h : w ∈ Pattern.string) (r : List Char) : Munched w r := by
  obtain ⟨v, hv, rfl⟩ := mem_string.mp h
  exact munched_of_shape (shapeOf_string hv r) Shape.noConfusion (Nat.le_refl _)

theorem shapeOf_hexPairs {ds : List Char} (hds : HexPairs ds) (r : List Char) :
    shapeOf 'h' ('e' :: 'x' :: '"' :: (ds ++ ['"'] ++ r)) = (.hexString, 3 + (ds.length + 1)) := by
  simp [shapeOf, isBlank, isDigit, isNameStart, hds.length_eq]

theorem munched_hexString (h : w ∈ Pattern.hexString) (r : List Char) : Munched w r := by
  obtain ⟨ds, hds, rfl⟩ := mem_hexString.mp h
  refine munched_of_shape (shapeOf_hexPairs hds r) Shape.noConfusion ?_
  simp only [List.length_cons, List.length_append, List.length_nil]
  omega

theorem shapeOf_nameStart {c : Char} (hc : isNameStart c = true) (cs : List Char) :
    ((shapeOf c cs).1 ≠ .unknown ∧ (cs.takeWhile isNamePart).length ≤ (shapeOf c cs).2) ∨
      (shapeOf c cs).1 = .unknown ∧ "hex\"".toList <+: c :: cs := by
  unfold shapeOf
  rw [if_neg (not_isBlank_of_isNameStart hc), if_neg (not_isDigit_of_isNameStart hc), if_pos hc]
  split
  · split
    · exact .inl ⟨Shape.noConfusion, Nat.le_trans (Nat.le_succ 2) (Nat.le_add_right 3 _)⟩
    · exact .inr ⟨rfl, _, rfl⟩
  · exact .inl ⟨Shape.noConfusion, Nat.le_refl _⟩

/-- What fits a pattern at the start of a text is part of the piece that is cut off there, unless it
is an identifier in front of the quote of what is no hexadecimal string. -/
theorem munched_of_fits {shape : Shape} (h : w ∈ shape.pattern) (r : List Char) :
    Munched w r ∨ ∃ c v, w = c :: v ∧ shape = .word ∧ (shapeOf c (v ++ r)).1 = .unknown ∧
      "hex\"".toList <+: c :: (v ++ r) := by
  cases shape with
  | trivia =>
    rcases h with (h | h) | h
    · exact .inl (munched_blanks h r)
    · exact .inl (munched_lineComment h r)
    · exact .inl (munched_blockComment h r)
  | punct => exact .inl (munched_punct h r)
  | decimal => exact .inl (munched_decimalNumber h r)
  | hex => exact .inl (munched_hexNumber h r)
  | string => exact .inl (munched_string h r)
  | hexString => exact .inl (munched_hexString h r)
  | word =>
    obtain ⟨c, v, hc, hv, rfl⟩ := mem_identifier.mp h
    rcases shapeOf_nameStart hc (v ++ r) with ⟨hshape, hlength⟩ | hunknown
    · exact .inl ⟨hshape, (length_le_takeWhile hv r).trans hlength⟩
    · exact .inr ⟨c, v, rfl, rfl, hunknown⟩
  | unknown => exact absurd h (Language.notMem_zero _)

variable {c : Char} {cs : List Char} {shape : Shape}

/-- No longer piece fits any pattern. -/
theorem shapeOf_longest (h : (shapeOf c cs).1 ≠ .unknown) (hw : w ∈ shape.pattern)
    (hstart : w <+: c :: cs) : w.length ≤ (c :: cs.take (shapeOf c cs).2).length := by
  obtain ⟨r, hr⟩ := hstart
  rcases munched_of_fits hw r with hmunched | ⟨d, v, rfl, -, hunknown, -⟩
  · cases w with
    | nil => exact hmunched.elim
    | cons d v =>
      rw [List.cons_append] at hr
      obtain ⟨rfl, rfl⟩ := List.cons.inj hr
      have hlength : v.length ≤ (shapeOf d (v ++ r)).2 := hmunched.2
      rw [List.length_cons, List.length_cons, List.length_take, List.length_append]
      omega
  · obtain ⟨rfl, rfl⟩ := List.cons.inj hr
    exact absurd hunknown h

/-- Where a piece starts no token, no pattern fits, except for identifiers in front of a quote. -/
theorem shapeOf_unknown (h : (shapeOf c cs).1 = .unknown) (hw : w ∈ shape.pattern)
    (hstart : w <+: c :: cs) : "hex\"".toList <+: c :: cs ∧ w ∈ identifier := by
  obtain ⟨r, hr⟩ := hstart
  rcases munched_of_fits hw r with hmunched | ⟨d, v, rfl, rfl, -, hhex⟩
  · cases w with
    | nil => exact hmunched.elim
    | cons d v =>
      obtain ⟨rfl, rfl⟩ := List.cons.inj hr
      exact absurd h hmunched.1
  · exact ⟨hr ▸ hhex, hw⟩

end Longest

end Yul
