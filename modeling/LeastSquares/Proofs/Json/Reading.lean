import Mathlib
import LeastSquares.Json.Parser
import LeastSquares.Proofs.Json.Grammar

/-! # Reading what the grammar allows

The tokens of a value lead the reading machine from a place where a value must come to the place
after that value, whatever containers are open around it. So every way to write a value is read as
that value.
-/

namespace LeastSquares.Json

open Machine

theorem foldlM_of_step {m m' : Machine} {t : Token} (hstep : m.step t = some m')
    (rest : List Token) : (t :: rest).foldlM step m = rest.foldlM step m' := by
  rw [List.foldlM_cons, hstep]
  rfl

/-- The tokens of a value complete it within any open containers. -/
def Completes (v : Json) : Prop :=
  ∀ (stack : List Frame) (rest : List Token),
    (tokens v ++ rest).foldlM step ⟨stack, .value⟩ = rest.foldlM step (deliver v stack)

/-- Where an array has just been opened, a value may begin as anywhere else. -/
theorem foldlM_firstItem (v : Json) (stack : List Frame) (rest : List Token) :
    (tokens v ++ rest).foldlM step ⟨stack, .firstItem⟩ =
      (tokens v ++ rest).foldlM step ⟨stack, .value⟩ := by
  have hfirst : ∃ t ts, tokens v = t :: ts ∧
      step ⟨stack, .firstItem⟩ t = step ⟨stack, .value⟩ t := by
    cases v with
    | array items => cases items <;> exact ⟨.openBracket, _, rfl, rfl⟩
    | object members => cases members <;> exact ⟨.openBrace, _, rfl, rfl⟩
    | _ => exact ⟨_, _, rfl, rfl⟩
  obtain ⟨t, ts, htokens, hstep⟩ := hfirst
  rw [htokens, List.cons_append, List.foldlM_cons, List.foldlM_cons, hstep]

/-- Further items are added to an open array. -/
theorem foldlM_itemTokens {items : List Json} (hitems : ∀ v ∈ items, Completes v)
    (done : List Json) (stack : List Frame) (rest : List Token) :
    (itemTokens items ++ rest).foldlM step ⟨.array done :: stack, .nextItem⟩ =
      rest.foldlM step ⟨.array (items.reverse ++ done) :: stack, .nextItem⟩ := by
  induction items generalizing done with
  | nil => rfl
  | cons v items ih =>
      rw [itemTokens, List.cons_append, List.cons_append, List.append_assoc, foldlM_of_step rfl,
        hitems v List.mem_cons_self]
      rw [deliver, ih fun w hw => hitems w (List.mem_cons_of_mem v hw)]
      simp

theorem foldlM_memberTokens {members : List (Spelling × Json)}
    (hvalues : ∀ m ∈ members, Completes m.2) (done : List (Spelling × Json)) (stack : List Frame)
    (rest : List Token) :
    (memberTokens members ++ rest).foldlM step ⟨stack, .nextMember done⟩ =
      rest.foldlM step ⟨stack, .nextMember (members.reverse ++ done)⟩ := by
  induction members generalizing done with
  | nil => rfl
  | cons m members ih =>
      obtain ⟨key, v⟩ := m
      rw [memberTokens]
      simp only [List.cons_append, List.append_assoc]
      rw [foldlM_of_step rfl, foldlM_of_step rfl, foldlM_of_step rfl,
        hvalues _ List.mem_cons_self, deliver, ih fun m hm => hvalues m (List.mem_cons_of_mem _ hm)]
      simp

theorem completes_array {items : List Json} (hitems : ∀ v ∈ items, Completes v) :
    Completes (.array items) := by
  intro stack rest
  cases items with
  | nil =>
      rw [tokens, List.cons_append, List.cons_append, foldlM_of_step rfl, foldlM_of_step rfl]
      rfl
  | cons v items =>
      rw [tokens]
      simp only [List.cons_append, List.append_assoc]
      rw [foldlM_of_step rfl, foldlM_firstItem, hitems v List.mem_cons_self, deliver,
        foldlM_itemTokens fun w hw => hitems w (List.mem_cons_of_mem v hw)]
      have hclose : step ⟨.array (items.reverse ++ [v]) :: stack, .nextItem⟩ .closeBracket =
          some (deliver (.array (v :: items)) stack) := by
        simp [step, closeArray]
      exact foldlM_of_step hclose rest

theorem completes_object {members : List (Spelling × Json)}
    (hvalues : ∀ m ∈ members, Completes m.2) : Completes (.object members) := by
  intro stack rest
  cases members with
  | nil =>
      rw [tokens, List.cons_append, List.cons_append, foldlM_of_step rfl, foldlM_of_step rfl]
      rfl
  | cons m members =>
      obtain ⟨key, v⟩ := m
      rw [tokens]
      simp only [List.cons_append, List.append_assoc]
      rw [foldlM_of_step rfl, foldlM_of_step rfl, foldlM_of_step rfl,
        hvalues _ List.mem_cons_self, deliver,
        foldlM_memberTokens fun m hm => hvalues m (List.mem_cons_of_mem _ hm)]
      have hclose : step ⟨stack, .nextMember (members.reverse ++ [(key, v)])⟩ .closeBrace =
          some (deliver (.object ((key, v) :: members)) stack) := by
        simp [step]
      exact foldlM_of_step hclose rest

theorem completes : (v : Json) → Completes v
  | .null => fun _ _ => foldlM_of_step rfl _
  | .bool _ => fun _ _ => foldlM_of_step rfl _
  | .number _ => fun _ _ => foldlM_of_step rfl _
  | .string _ => fun _ _ => foldlM_of_step rfl _
  | .array items => completes_array fun v _ => completes v
  | .object members => completes_object fun m _ => completes m.2
decreasing_by
  · have hsmaller := List.sizeOf_lt_of_mem ‹_›
    simp only [array.sizeOf_spec]
    omega
  · have hsmaller := List.sizeOf_lt_of_mem ‹_›
    have hvalue : sizeOf m = 1 + sizeOf m.1 + sizeOf m.2 := rfl
    simp only [object.sizeOf_spec]
    omega

theorem ofTokens?_tokens (v : Json) : ofTokens? (tokens v) = some v := by
  have hcompletes := completes v [] []
  rw [List.append_nil] at hcompletes
  unfold ofTokens? start
  rw [hcompletes]
  rfl

/-- However a value is written, it is read. -/
theorem parse?_of_spacedAs {v : Json} {text : String} (hv : v.SpacedAs text.toList) :
    parse? text = some v := by
  rw [parse?, tokens?_of_spacedAs hv]
  exact ofTokens?_tokens v

end LeastSquares.Json
