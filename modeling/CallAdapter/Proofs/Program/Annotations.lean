import CallAdapter.Program.Signature
import Mathlib.Data.List.Forall2

/-!
# Reading annotations

The texts among the annotations of a function are evaluated in order, up to the first that denotes
no type (`Program.evaluateAll_eq_ok_iff`). The readers of members and of shapes differ only where
this one fails to evaluate in another way than by meaning nothing (`Program.readHints_eq`).
-/

namespace CallAdapter

namespace Program

variable {Γ : Program} {id : Nat} {as bs : List (String × Ty)}

/-- What an annotation of a function comes to. -/
def meaning (Γ : Program) : Ty → Evaluation
  | .text s => Γ.evaluate (fun _ => none) s
  | t => .denotes t

theorem evaluateAll_cons (a : String × Ty) (as : List (String × Ty)) :
    Γ.evaluateAll (fun _ => none) (a :: as) =
      match Γ.meaning a.2 with
      | .denotes t => (Γ.evaluateAll (fun _ => none) as).map ((a.1, t) :: ·)
      | .unknown => .error none
      | .raises kind => .error (some kind) := by
  obtain ⟨n, t⟩ := a
  unfold evaluateAll
  rw [List.mapM_cons]
  cases t with
  | text s =>
    dsimp only [meaning]
    cases Γ.evaluate (fun _ => none) s with
    | denotes t => cases (as.mapM _ : Except (Option ExceptionKind) (List (String × Ty))) <;> rfl
    | _ => rfl
  | _ => cases (as.mapM _ : Except (Option ExceptionKind) (List (String × Ty))) <;> rfl

/-- Where all annotations mean something, each is replaced by what it means. -/
theorem evaluateAll_eq_ok_iff :
    Γ.evaluateAll (fun _ => none) as = .ok bs ↔
      List.Forall₂ (fun a b => b.1 = a.1 ∧ Γ.meaning a.2 = .denotes b.2) as bs := by
  induction as generalizing bs with
  | nil =>
    cases bs with
    | nil => exact iff_of_true rfl .nil
    | cons => exact iff_of_false nofun nofun
  | cons a as ih =>
    rw [evaluateAll_cons, List.forall₂_cons_left_iff]
    cases hmeaning : Γ.meaning a.2 with
    | denotes t =>
      constructor
      · intro h
        cases hrest : Γ.evaluateAll (fun _ => none) as with
        | error e =>
          rw [hrest] at h
          cases h
        | ok cs =>
          rw [hrest] at h
          cases h
          exact ⟨(a.1, t), cs, ⟨rfl, rfl⟩, ih.1 hrest, rfl⟩
      · rintro ⟨⟨n, u⟩, cs, ⟨rfl, hu⟩, hcs, rfl⟩
        cases hu
        rw [ih.2 hcs]
        rfl
    | _ =>
      refine iff_of_false nofun ?_
      rintro ⟨_, _, ⟨-, h⟩, -⟩
      cases h

/-- The first annotation that means nothing ends the evaluation. -/
theorem evaluateAll_of_unknown {before after : List (String × Ty)} {a : String × Ty}
    (hbefore : ∀ b ∈ before, ∃ t, Γ.meaning b.2 = .denotes t) (ha : Γ.meaning a.2 = .unknown) :
    Γ.evaluateAll (fun _ => none) (before ++ a :: after) = .error none := by
  induction before with
  | nil => rw [List.nil_append, evaluateAll_cons, ha]
  | cons b before ih =>
    obtain ⟨⟨t, ht⟩, hbefore⟩ := List.forall_mem_cons.1 hbefore
    rw [List.cons_append, evaluateAll_cons, ht, ih hbefore]
    rfl

/-- Evaluating the texts among annotations keeps their names. -/
theorem map_fst_resolveAll (as : List (String × Ty)) :
    (Γ.resolveAll (fun _ => none) as).map Prod.fst = as.map Prod.fst := by
  unfold resolveAll
  split
  · rename_i bs hbs
    have hnames : List.Forall₂ (· = ·) (bs.map Prod.fst) (as.map Prod.fst) :=
      List.forall₂_map_left_iff.2 <| List.forall₂_map_right_iff.2 <|
        ((evaluateAll_eq_ok_iff.1 hbs).imp fun _ _ h => h.1).flip
    rwa [List.forall₂_eq_eq_eq] at hnames
  · rfl

/-- Where the texts of a function can be read, both readers have the same annotations. -/
theorem readHints_eq (hreadable : ∀ e, Γ.readHints id ≠ .error e) :
    Γ.readHints id = .ok (Γ.functionHints id) := by
  unfold readHints functionHints readAll resolveAll at *
  cases hf : Γ.function? id with
  | none => rfl
  | some f =>
    rw [hf] at hreadable
    dsimp only at hreadable ⊢
    cases hall : Γ.evaluateAll (fun _ => none) f.annotations with
    | ok bs => rfl
    | error e =>
      rw [hall] at hreadable
      cases e with
      | none => rfl
      | some kind => exact absurd rfl (hreadable _)

end Program

end CallAdapter
