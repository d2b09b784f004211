import CallAdapter.Heap
import CallAdapter.Program.Declaration

/-!
# Ancestors and their entries

Declared classes come first among their own ancestors (`Program.OwnFirst.declare`). Access by a name
finds the entry of the first ancestor that has one (`findEntry_eq_some_iff`).
-/

namespace CallAdapter

open Program

/-- Every class comes first in the order of its own ancestors. -/
def Program.OwnFirst (Γ : Program) : Prop :=
  ∀ i ∈ Γ.classes, i.mro.head? = some (.declared i.ref)

section Ancestors

variable {Γ : Program}

theorem Program.OwnFirst.head?_mro (h : Γ.OwnFirst) (c : Cls) : (Γ.mro c).head? = some c := by
  cases c with
  | builtin b => cases b <;> rfl
  | declared r =>
    unfold mro
    dsimp only
    cases hinfo : Γ.info? r with
    | none => rfl
    | some i =>
      unfold info? at hinfo
      have href : i.ref = r := by simpa using List.find?_some hinfo
      exact href ▸ h i (List.mem_of_find?_eq_some hinfo)

theorem head?_orderOf (self : Cls) (bases : List Cls) :
    (Γ.orderOf self bases).head? = some self := by
  unfold Program.orderOf
  cases horder : Linearization.linearize? self (bases.map fun b => (b, Γ.mro b)) with
  | none => rfl
  | some order =>
    obtain ⟨rest, -, rfl⟩ := Option.map_eq_some_iff.1 horder
    rfl

/-- Declaring a class puts it first. -/
theorem Program.OwnFirst.declare (h : Γ.OwnFirst) (d : ClassDecl) : (Γ.declare d).OwnFirst := by
  have hdeclared : ∃ i, (Γ.declare d).classes = Γ.classes ++ [i] ∧ i.ref = d.ref ∧
      i.mro = Γ.orderOf (.declared d.ref) d.baseClasses := ⟨_, rfl, rfl, rfl⟩
  obtain ⟨new, hclasses, href, horder⟩ := hdeclared
  intro i hi
  rw [hclasses] at hi
  rcases List.mem_append.1 hi with hi | hi
  · exact h i hi
  · obtain rfl := List.mem_singleton.1 hi
    rw [horder, href, head?_orderOf]

end Ancestors

/-- What the class itself has for the name. -/
def Heap.ownEntry? (Γ : Program) (h : Heap) (k : Cls) (name : String) : Option Value :=
  ((h.entries Γ k).find? fun e => e.1 == name).map (·.2)

section Entries

variable {Γ : Program} {h : Heap} {c o : Cls} {name : String} {v : Value}

theorem findEntry_eq (c : Cls) (name : String) : h.findEntry Γ c name =
    (Γ.mro c).findSome? fun k => (h.ownEntry? Γ k name).map fun v => (k, v) := by
  unfold Heap.findEntry Heap.ownEntry?
  simp only [Option.map_map]
  rfl

theorem findEntry_eq_some_iff : h.findEntry Γ c name = some (o, v) ↔
    ∃ nearer further, Γ.mro c = nearer ++ o :: further ∧ h.ownEntry? Γ o name = some v ∧
      ∀ k ∈ nearer, h.ownEntry? Γ k name = none := by
  rw [findEntry_eq, List.findSome?_eq_some_iff]
  constructor
  · rintro ⟨nearer, k, further, hmro, hk, hnearer⟩
    obtain ⟨u, hu, heq⟩ := Option.map_eq_some_iff.1 hk
    obtain ⟨rfl, rfl⟩ := Prod.mk.inj heq
    exact ⟨nearer, further, hmro, hu, fun k hk => Option.map_eq_none_iff.1 (hnearer k hk)⟩
  · rintro ⟨nearer, further, hmro, ho, hnearer⟩
    refine ⟨nearer, o, further, hmro, ?_, fun k hk => ?_⟩
    · rw [ho, Option.map_some]
    · rw [hnearer k hk, Option.map_none]

end Entries

end CallAdapter
