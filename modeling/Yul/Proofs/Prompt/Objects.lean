import Yul.Proofs.Prompt.Stmts

/-!
# Prompt parsers of objects

The words `object`, `code` and `data` are found out of place as any other token is.
-/

namespace Yul

namespace Parser

variable {ι : Type} {past : List Lexeme} {n : Nat} {room : ι → Nat} {T : Lexeme → Prop}

theorem stringName_prompt : Prompt past n room T (fun _ => stringName) (phrases DerivesName) := by
  refine .current fun ⟨token, span⟩ _ => ?_
  cases token with
  | string raw =>
    have hinterprets : Interprets (decoded (Text.decodeString raw.toList) span) ⟨.string raw, span⟩
        .string fun t => ∃ raw bytes, t = .string raw ∧ t.HasBytes bytes :=
      .decoded (l := ⟨.string raw, span⟩)
        (fun bs h => ⟨raw, bs, rfl, Text.decodeString_eq_ok_iff.mp h⟩) fun _ => id
    refine hinterprets.prompt (f := fun l => decoded _ l.span) ?_ .name
      ((mul_one _).le.trans name_rows) fun bytes => .done
    rintro ⟨_, _, ⟨⟩, _⟩
  | _ => exact .unexpected _ .name

theorem dataValue_interprets (l : Lexeme) :
    Interprets (dataValue l) l .dataValue fun t => ∃ bytes, t.HasBytes bytes := by
  obtain ⟨token, span⟩ := l
  cases token with
  | string raw => exact .decoded (fun bs h => ⟨bs, Text.decodeString_eq_ok_iff.mp h⟩) fun _ => id
  | hexString raw =>
    exact .decoded (fun bs h => ⟨bs, Text.decodeHexString_eq_ok_iff.mp h⟩) fun _ => id
  | _ => exact .unfit fun _ => rfl

theorem dataSection_prompt : Prompt past n room T (fun _ => dataSection) (phrases DerivesData) := by
  refine Prompt.mono ?_ data_rows
  refine (expect_prompt _ .dataWord).bind (Fillable.name.mul .dataValue) fun start => ?_
  refine stringName_prompt.bind .dataValue fun name => .of_forall fun l _ => ?_
  refine (dataValue_interprets l).prompt ?_ .dataValue (mul_one _).le fun bytes => .spanned _ _
  exact fun ⟨_, hbytes⟩ => hbytes.ne_endOfInput rfl

theorem objectItems_succ (object : Parser Object) (k : Nat) : objectItems object (k + 1) = (do
    let l ← current
    if l.token = .punct .rbrace then return ([], [])
    else if l.token = .identifier "object" then
      let o ← object
      let (objects, data) ← objectItems object k
      return (o :: objects, data)
    else if l.token = .identifier "data" then
      let d ← dataSection
      let (objects, data) ← objectItems object k
      return (objects, d :: data)
    else unexpected .objectItem) := by
  rw [objectItems]
  congr 1
  funext l
  split
  · next h => rw [if_pos h]
  · next h => rw [h, if_neg nofun, if_pos rfl]
  · next h => rw [h, if_neg nofun, if_neg (by decide), if_pos rfl]
  · next hend hobject hdata => rw [if_neg hend, if_neg hobject, if_neg hdata]

theorem objectItems_prompt {O : ι → Parser Object} {bounds : ι → Nat}
    (hO : Prompt [] n room (fun _ => True) O (rows DerivesObject)) (hbounds : ∀ i, room i ≤ bounds i) :
    Prompt past n room T (fun i => objectItems (O i) (bounds i)) partRows := by
  induction n generalizing past room bounds T with
  | zero => exact .zero
  | succ n ih =>
    have hparts : Fillable partRows := .of_nil parts_nil
    have hmore : Prompt [] n (fun i => room i - 1) (fun _ => True)
        (fun i => objectItems (O i) (bounds i - 1)) partRows :=
      ih (hO.less 1) fun i => Nat.sub_le_sub_right (hbounds i) 1
    refine .opened (f := fun i => objectItems (O i)) hbounds ?_
    simp only [objectItems_succ]
    refine .current fun l _ => ?_
    by_cases hend : l.token = .punct .rbrace
    · simp only [if_pos hend]
      exact .pure parts_nil
    by_cases hobject : l.token = .identifier "object"
    · simp only [if_neg hend, if_pos hobject]
      refine ((hO.less 0).bind_next nil_notMem_object hparts fun o => ?_).mono parts_object
      exact (hmore.less 0).finish fun parts => .done
    by_cases hdata : l.token = .identifier "data"
    · simp only [if_neg hend, if_neg hobject, if_pos hdata]
      refine (dataSection_prompt.bind_next nil_notMem_data hparts fun d => ?_).mono parts_data
      exact (hmore.less 0).finish fun parts => .done
    · simp only [if_neg hend, if_neg hobject, if_neg hdata]
      exact .unexpected _ hparts

theorem objectWithin_prompt {depths : ι → Nat} (hdepths : ∀ i, room i ≤ depths i) :
    Prompt past n room T (fun i => objectWithin (depths i)) (rows DerivesObject) := by
  induction n generalizing ι past room depths T with
  | zero => exact .zero
  | succ n ih =>
    have hparts : Fillable (partRows * Punct.rbrace.row) :=
      (Fillable.of_nil parts_nil).mul (.punct .rbrace)
    have hcode := Fillable.block.mul hparts
    have hword := Fillable.codeWord.mul hcode
    have hopen := (Fillable.punct .lbrace).mul hword
    refine Prompt.mono (.opened (f := fun _ => objectWithin) hdepths ?_) object_rows
    refine (expect_prompt _ .objectWord).bind_next nil_notMem_oneOf (Fillable.name.mul hopen)
      fun start => ?_
    refine stringName_prompt.bind hopen fun name => ?_
    refine (mark_prompt .lbrace).bind hword fun _ => ?_
    refine (expect_prompt _ .codeWord).bind hcode fun _ => ?_
    refine block_prompt.bind hparts fun code => .bound ?_
    have hinner : Prompt [] n (fun j : ι × Nat => min (room j.1 - 1) j.2) (fun _ => True)
        (fun j => objectWithin (depths j.1 - 1)) (rows DerivesObject) :=
      ih fun j => (Nat.min_le_left _ _).trans (Nat.sub_le_sub_right (hdepths j.1) 1)
    refine (objectItems_prompt hinner fun _ => Nat.min_le_right _ _).bind (.punct .rbrace)
      fun parts => ?_
    exact (mark_prompt .rbrace).finish fun _ => .spanned _ _

theorem object_prompt : Prompt past n room T (fun _ => object) (rows DerivesObject) :=
  .bound (objectWithin_prompt fun _ => Nat.min_le_right _ _)

theorem objectOrBlock_prompt :
    Prompt past n room T (fun _ => objectOrBlock) (phrases DerivesProgram) := by
  refine .current fun l _ => ?_
  by_cases hl : l.token = .identifier "object"
  · simp only [if_pos hl]
    exact object_prompt.mono program_object
  · simp only [if_neg hl]
    exact (block_prompt.finish fun code => .done).mono program_block

end Parser

end Yul
