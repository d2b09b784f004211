import CallAdapter.Builder.Create
import CallAdapter.Proofs.Member.Receiver

/-!
# Searches in a changing world

Building adapters changes the world: it places artifacts on the heap, and planners and caches learn.
A search by name reads nothing of this but its planner. Whatever was built before, it therefore ends
like the same search on an empty planner at the start (`search_alike`), also where the containers
and shapes of the two searches are spelled differently.
-/

namespace CallAdapter

open Program

/-- The worlds agree in all that a search reads besides its planner. -/
structure World.Alike (w w' : World) : Prop where
  heap : w.heap.Alike w'.heap
  tables : w.tables = w'.tables

/-! ## Offers -/

namespace MemberSource

variable {S S' : MemberSource} {c c' : Ty} {name : String} {t : Target}

theorem mem_of_agree {α : Type} {rel : α → α → Prop} {x y : Except Failure (List α)}
    (h : Agree (List.Forall₂ rel) x y) {as : List α} (hx : x = .ok as) {a : α} (ha : a ∈ as) :
    ∃ bs, y = .ok bs ∧ ∃ b ∈ bs, rel a b := by
  cases h with
  | ok hab =>
    obtain rfl := Except.ok.inj hx
    refine ⟨_, rfl, ?_⟩
    clear hx
    induction hab with
    | nil => cases ha
    | cons hr _ ih =>
      rcases List.mem_cons.1 ha with rfl | ha
      · exact ⟨_, List.mem_cons_self, hr⟩
      · exact (ih ha).imp fun b hb => ⟨List.mem_cons_of_mem _ hb.1, hb.2⟩
  | error => cases hx

/-- What one source offers, the other offers too. -/
theorem SameAnswers.offers (h : S.SameAnswers S' c c') (ht : S.Offers c name t) :
    ∃ t', S'.Offers c' name t' ∧ t.Same t' := by
  have haccessor : ∀ {a a' : Bool → Option Target} {setter t}, SameAccessors a a' →
      a setter = some t → ∃ t', a' setter = some t' ∧ t.Same t' := by
    intro a a' setter t haa ha
    have hrel := haa setter
    rw [ha] at hrel
    generalize a' setter = o at hrel
    cases hrel with
    | some htt => exact ⟨_, rfl, htt⟩
  cases ht with
  | procedure hts ht =>
    obtain ⟨ts', hts', t', ht', htt⟩ := mem_of_agree (h.procedures _ _) hts ht
    exact ⟨t', .procedure hts' ht', htt⟩
  | property hps hp ht =>
    obtain ⟨ps', hps', p', hp', hpp⟩ := mem_of_agree (h.properties _ _) hps hp
    obtain ⟨t', ht', htt⟩ := haccessor hpp ht
    exact ⟨t', .property hps' hp' ht', htt⟩
  | field hfs hf ht =>
    obtain ⟨fs', hfs', f', hf', hff⟩ := mem_of_agree (h.fields _ _) hfs hf
    obtain ⟨t', ht', htt⟩ := haccessor hff ht
    exact ⟨t', .field hfs' hf' ht', htt⟩

theorem SameAnswers.constructs (h : S.SameAnswers S' c c') (ht : S.Constructs c t) :
    ∃ t', S'.Constructs c' t' ∧ t.Same t' := by
  obtain ⟨b, ts, hts, ht⟩ := ht
  obtain ⟨ts', hts', t', ht', htt⟩ := mem_of_agree (h.constructors b) hts ht
  exact ⟨t', ⟨b, ts', hts', ht'⟩, htt⟩

end MemberSource

theorem Target.Same.typesHashable {t t' : Target} (h : t.Same t') (ht' : t'.TypesHashable) :
    t.TypesHashable := by
  refine ⟨?_, (Ty.hashable_congr h.result).trans ht'.2⟩
  have hinputs := h.inputs
  have hkeys := ht'.1
  generalize t.inputs = ds, t'.inputs = ds' at hinputs hkeys ⊢
  induction hinputs with
  | nil => exact fun _ hd => nomatch hd
  | cons hd _ ih =>
    intro d hmem
    rcases List.mem_cons.1 hmem with rfl | hmem
    · exact (Ty.hashable_congr hd).trans (hkeys _ List.mem_cons_self)
    · exact ih (fun d hd => hkeys d (List.mem_cons_of_mem _ hd)) d hmem

/-! ## Hosts -/

namespace Host

variable {Γ : Program} {w w' : World} {c c' : Ty} {name : String} {t : Target}

theorem sameAnswers (host : Host) (hw : w.Alike w') (hc : c.same c' = true)
    (hu : host = .classes → c.isUnion = false) :
    (host.source Γ w).SameAnswers (host.source Γ w') c c' := by
  cases host with
  | classes => exact Reflection.sameAnswers_source hw.heap.statics hc (hu rfl)
  | table id =>
    have htable : Eval.tableAt w id = Eval.tableAt w' id := by
      unfold Eval.tableAt
      rw [hw.tables]
    show (Eval.tableAt w id).source.SameAnswers (Eval.tableAt w' id).source c c'
    rw [htable]
    exact MemberTable.sameAnswers_source _ hc

/-- The table of the host holds what registrations made. -/
def Registered (host : Host) (w : World) : Prop :=
  ∀ id, host = .table id → (Eval.tableAt w id).Registered

theorem Registered.congr {host : Host} (hhost : host.Registered w') (hw : w.Alike w') :
    host.Registered w := by
  intro id hid
  have htable := hhost id hid
  unfold Eval.tableAt at htable ⊢
  rwa [hw.tables]

theorem Registered.offeredBy {host : Host} (hhost : host.Registered w)
    (ht : (host.source Γ w).Offers c name t) : t.OfferedBy c := by
  cases host with
  | classes => exact Reflection.offeredBy ht
  | table id => exact (hhost id rfl).offeredBy ht

end Host

/-! ## Searches -/

/-- The container and the members that it offers for a name suit a search: where the classes are
asked, the container is no union (one spelling of a union is an instance of a class with members,
another is none); the types of the members can be keys; and a captured value is not converted to a
union. -/
structure Host.Suits (Γ : Program) (w : World) (host : Host) (ctor : String) (c : Ty)
    (name : String) (bound : Value) : Prop where
  single : host = .classes → c.isUnion = false
  members : ∀ t, (host.source Γ w).Offers c name t → t.TypesHashable
  constructors : ∀ t, (host.source Γ w).Constructs c t → t.TypesHashable
  captured : bound.isUnbound = true ∨ bound.isNone = true ∨
    (Text.fold name ≠ Text.fold ctor ∧ c.content.normalize.isUnion = false)

/-- What a search finds on an empty planner. -/
def Host.freshSearch (Γ : Program) (w : World) (host : Host) (ctor : String) (c : Ty)
    (name : String) (s : Shape) (options : SearchMask) (bound : Value) :
    Except Failure (Except NotFound Resolution) :=
  ((Γ.resolve w.heap (host.source Γ w) ctor c name s (some options) bound).run.run
    ⟨false, [], []⟩).1

/-- A search ends like a fresh one for the same container and shape, and leaves a planner that was
used. -/
theorem Host.search_alike {Γ : Program} {w w₀ : World} (hw : w.Alike w₀) {host : Host}
    (hhost : host.Registered w₀) {ctor : String} {c c₀ : Ty} (hc : c.same c₀ = true)
    {s s₀ : Shape} (hs : s.same s₀ = true) (hkey : s₀.hashable = true) {name : String}
    {bound : Value} (hsuits : host.Suits Γ w₀ ctor c₀ name bound) (options : SearchMask)
    {p : Planner} (hp : p.Used Γ) :
    ((Γ.resolve w.heap (host.source Γ w) ctor c name s (some options) bound).run.run p).2.Used Γ ∧
      Agree FoundAlike
        ((Γ.resolve w.heap (host.source Γ w) ctor c name s (some options) bound).run.run p).1
        (host.freshSearch Γ w₀ ctor c₀ name s₀ options bound) := by
  have hsingle := fun hclasses => (Ty.isUnion_congr hc).trans (hsuits.single hclasses)
  have hcontent := Ty.isUnion_congr (Ty.same_normalize (Ty.same_content hc))
  have hanswers := host.sameAnswers (Γ := Γ) hw hc hsingle
  have hsearchable : ∀ t, (host.source Γ w).Offers c name t →
      t.Searchable w.heap w₀.heap bound := by
    intro t ht
    obtain ⟨t', ht', htt⟩ := hanswers.offers ht
    refine ((hhost.congr hw).offeredBy ht).searchable (htt.typesHashable (hsuits.members t' ht'))
      hw.heap ?_
    exact hsuits.captured.imp_right (Or.imp_right fun h => hcontent.trans h.2)
  have hconstructs : ∀ t, (host.source Γ w).Constructs c t → t.TypesHashable := by
    intro t ht
    obtain ⟨t', ht', htt⟩ := hanswers.constructs ht
    exact htt.typesHashable (hsuits.constructors t' ht')
  have hctor : Text.fold name = Text.fold ctor → bound.isUnbound = true ∨ bound.isNone = true :=
    fun hname => hsuits.captured.imp_right fun h => h.resolve_right fun h => h.1 hname
  have hshape : s.Same s₀ := Shape.same_iff.1 hs
  have hskey : s.hashable = true := (Shape.hashable_congr hshape).trans hkey
  obtain ⟨hp', -, hagree⟩ := resolve_together hc hanswers hshape hskey hsearchable hconstructs hctor
    (some options) p _ hp (Planner.forgetful_empty Γ)
  exact ⟨hp', hagree⟩

end CallAdapter
