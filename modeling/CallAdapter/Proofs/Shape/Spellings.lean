import CallAdapter.Proofs.Program.Ancestors
import CallAdapter.Proofs.Program.Annotations
import CallAdapter.Proofs.Type.Normal
import CallAdapter.Shape.Descriptor
import Mathlib

/-!
# Spellings of a call signature

One call signature can be spelled as a callable type of the annotation language, as the callable
interface with arguments, or as a protocol with a call function. All of them come to
`Program.shapeOfAnnotations`: a shape in normal form, or a refusal where the annotations leave type
variables open. Only text is taken differently. The interface keeps it, which makes it any type; a
protocol evaluates it, and keeps it too where some text means nothing (`spellings_agree`).
-/

namespace CallAdapter

/-- The annotation is text. -/
def Ty.isText : Ty → Bool
  | text _ => true
  | _ => false

/-- The function takes a receiver and parameters with these annotations, and has an annotated
result. -/
structure Function.IsAnnotated (f : Function) (ps : List Ty) (r : Ty) : Prop where
  params : ∃ self as, f.params = self :: as ∧ self.type = none ∧
    as.map (·.type) = ps.map some ∧ (∀ a ∈ as, a.passing = .positional) ∧
    (as.map (·.name)).Nodup ∧ "return" ∉ as.map (·.name)
  returns : f.returns = some r
  single : f.overloaded = false

namespace Program

variable (Γ : Program) (h : Heap)

/-- The class has the function as its nearest call entry, and no public entries. -/
structure IsCallProtocol (c : Cls) (f : Function) : Prop where
  call : ∃ before k after id,
    (Γ.mro c).filter (fun k => !isDescriptorBase k) = before ++ k :: after ∧
      (∀ b ∈ before, h.ownEntry? Γ b "__call__" = none) ∧
      h.ownEntry? Γ k "__call__" = some (.code (.function id)) ∧ Γ.function? id = some f
  sole : ∀ k ∈ Γ.mro c, isDescriptorBase k = false →
    (∃ r, k = .declared r) ∧ ∀ e ∈ h.entries Γ k, e.1.startsWith "_" = true

/-- The shape that annotations give, unless they leave type variables open. -/
def shapeOfAnnotations (ps : List Ty) (r : Ty) : Except Failure Shape :=
  let s := Shape.make ps r
  if s.openVars.isEmpty then .ok s
  else invalidShape ("shape " ++ s.text ++ " has unbound type parameters") s.text

variable {Γ h} {c : Cls} {f : Function} {ps qs : List Ty} {r s : Ty}

/-! ## Annotations of a function -/

/-- An annotation is found by its name. -/
theorem hint?_of_mem {hints : List (String × Ty)} {n : String} {t : Ty}
    (hnodup : (hints.map Prod.fst).Nodup) (ht : (n, t) ∈ hints) : hint? hints n = some t := by
  induction hints with
  | nil => cases ht
  | cons x hints ih =>
    obtain ⟨hx, hnodup⟩ := List.nodup_cons.1 hnodup
    rcases List.mem_cons.1 ht with rfl | ht
    · simp [hint?]
    · have hne : x.1 ≠ n := by
        rintro rfl
        exact hx (List.mem_map.2 ⟨_, ht, rfl⟩)
      have hskip : hint? (x :: hints) n = hint? hints n := by simp [hint?, hne]
      exact hskip.trans (ih hnodup ht)

/-- The types of annotations, found by their names in order. -/
theorem map_hint? {names : List String} {ts : List Ty} {last : List (String × Ty)}
    (hlength : names.length = ts.length)
    (hnodup : ((names.zip ts ++ last).map Prod.fst).Nodup) :
    names.map (fun n => (hint? (names.zip ts ++ last) n).getD .any) = ts := by
  have hzip : names = (names.zip ts).map Prod.fst := (List.map_fst_zip hlength.le).symm
  calc names.map (fun n => (hint? (names.zip ts ++ last) n).getD .any)
      = ((names.zip ts).map Prod.fst).map
          (fun n => (hint? (names.zip ts ++ last) n).getD .any) := by rw [← hzip]
    _ = (names.zip ts).map Prod.snd := by
      rw [List.map_map]
      refine List.map_congr_left fun x hx => ?_
      rw [Function.comp_apply, hint?_of_mem hnodup (List.mem_append_left _ hx), Option.getD_some]
    _ = ts := List.map_snd_zip hlength.ge

/-! ## Protocols -/

/-- The annotations of parameters that all have one. -/
theorem filterMap_annotated {as : List Param} (htypes : as.map (·.type) = ps.map some) :
    (as.filterMap fun p => p.type.map fun t => (p.name, t)) = (as.map (·.name)).zip ps := by
  induction as generalizing ps with
  | nil => rfl
  | cons a as ih =>
    cases ps with
    | nil => cases htypes
    | cons t ps =>
      obtain ⟨ha, htypes⟩ := List.cons.inj htypes
      dsimp only at ha
      rw [List.filterMap_cons, ha, Option.map_some, ih htypes]
      rfl

/-- The annotations of the parameters go by names that are all different. -/
theorem exists_names (hf : f.IsAnnotated ps r) :
    ∃ names, names.length = ps.length ∧ (names ++ ["return"]).Nodup ∧
      (f.params.filterMap fun p => p.type.map fun t => (p.name, t)) = names.zip ps ∧
      f.params.tail.map (fun p => (p.name, p.passing)) =
        names.map fun n => (n, Passing.positional) := by
  obtain ⟨self, as, hparams, hself, htypes, hpassing, hnodup, hreturn⟩ := hf.params
  refine ⟨as.map (·.name), ?_, ?_, ?_, ?_⟩
  · simpa using congrArg List.length htypes
  · rw [List.nodup_append]
    refine ⟨hnodup, by simp, ?_⟩
    rintro n hn _ hr rfl
    exact hreturn (List.mem_singleton.1 hr ▸ hn)
  · rw [hparams, List.filterMap_cons, hself]
    exact filterMap_annotated htypes
  · rw [hparams, List.tail_cons, List.map_map]
    exact List.map_congr_left fun a ha => by simp [hpassing a ha]

/-- The shape of an annotated function comes from what its hints hold for each annotation. -/
theorem shapeOfSignature_annotated (hf : f.IsAnnotated ps r)
    {names : List String} (hnames : (names ++ ["return"]).Nodup) (hlength : names.length = qs.length)
    (hparams : f.params.tail.map (fun p => (p.name, p.passing)) =
      names.map fun n => (n, Passing.positional)) :
    shapeOfSignature ⟨f.params.tail.map fun p => (p.name, p.passing), f.returns.isSome⟩
      (names.zip qs ++ [("return", s)]) = Shape.make qs s := by
  have hfst : (names.zip qs ++ [("return", s)]).map Prod.fst = names ++ ["return"] := by
    rw [List.map_append, List.map_fst_zip hlength.le]
    rfl
  have hnodup : ((names.zip qs ++ [("return", s)]).map Prod.fst).Nodup := hfst ▸ hnames
  rw [hparams, hf.returns]
  unfold shapeOfSignature
  simp only [Option.isSome_some, if_true, hint?_of_mem hnodup (List.mem_append_right _ List.mem_cons_self),
    Option.getD_some, List.map_map]
  exact congrArg (Shape.make · s) (map_hint? hlength hnodup)

/-- The call entry of a protocol is its function. -/
theorem IsCallProtocol.callEntry? (hc : Γ.IsCallProtocol h c f) :
    ∃ id, Γ.callEntry? h c = some (some (.code (.function id))) ∧ Γ.function? id = some f := by
  obtain ⟨before, k, after, id, hmro, hbefore, hk, hid⟩ := hc.call
  have hdeclared : ∀ b ∈ before ++ k :: after, ∃ r, b = .declared r := by
    intro b hb
    rw [← hmro, List.mem_filter] at hb
    exact (hc.sole b hb.1 (by simpa using hb.2)).1
  refine ⟨id, ?_, hid⟩
  unfold Program.callEntry?
  rw [hmro]
  refine List.findSome?_eq_some_iff.2 ⟨before, k, after, rfl, ?_, fun b hb => ?_⟩
  · obtain ⟨r, rfl⟩ := hdeclared k (by simp)
    obtain ⟨e, he, hv⟩ := Option.map_eq_some_iff.1 hk
    simp only [he, Option.map_some, hv]
  · obtain ⟨r, rfl⟩ := hdeclared b (by simp [hb])
    have hnone := Option.map_eq_none_iff.1 (hbefore _ hb)
    simp only [hnone, Option.map_none]

/-- A protocol has no other public functions. -/
theorem IsCallProtocol.otherFunctions (hc : Γ.IsCallProtocol h c f) :
    Γ.otherFunctions h c = [] := by
  unfold Program.otherFunctions
  refine List.flatMap_eq_nil_iff.2 fun k hk => ?_
  obtain ⟨hmem, hbase⟩ := List.mem_filter.1 hk
  obtain ⟨⟨r, rfl⟩, hprivate⟩ := hc.sole k hmem (by simpa using hbase)
  refine List.map_eq_nil_iff.2 (List.filter_eq_nil_iff.2 fun e he => ?_)
  simp [hprivate e he]

/-- A protocol has the shape that its function's annotations give, as far as these can be read. -/
theorem IsCallProtocol.shapeOfClass (hc : Γ.IsCallProtocol h c f) (hf : f.IsAnnotated ps r) :
    Γ.shapeOfClass h c = (Γ.readAll (fun _ => none) f.annotations).map
      (shapeOfSignature ⟨f.params.tail.map fun p => (p.name, p.passing), f.returns.isSome⟩) := by
  obtain ⟨id, hentry, hid⟩ := hc.callEntry?
  obtain ⟨names, -, -, -, hparams⟩ := exists_names hf
  have hread : Γ.readHints id = Γ.readAll (fun _ => none) f.annotations := by
    unfold readHints
    rw [hid]
  have hfixed : Signature.isFixed
      ⟨f.params.tail.map fun p => (p.name, p.passing), f.returns.isSome⟩ = true := by
    simp [Signature.isFixed, hparams]
  have hsignature : Γ.functionSignature id =
      some ⟨f.params.map fun p => (p.name, p.passing), f.returns.isSome⟩ := by
    simp [functionSignature, hid]
  have hothers : sortedNames (Γ.otherFunctions h c) = [] := by simp [hc.otherFunctions, sortedNames]
  unfold Program.shapeOfClass
  simp only [hentry, hothers, hid, hf.single, hsignature, List.isEmpty_nil, Bool.not_true,
    Bool.false_eq_true, if_false, Option.map_some, Option.getD_some, ← List.map_tail, if_pos hfixed,
    hread]
  cases Γ.readAll (fun _ => none) f.annotations <;> rfl

theorem forall₂_zip {R : Ty → Ty → Prop} {names : List String} (hlength : names.length = ps.length)
    (hps : List.Forall₂ R ps qs) :
    List.Forall₂ (fun a b => b.1 = a.1 ∧ R a.2 b.2) (names.zip ps) (names.zip qs) := by
  induction hps generalizing names with
  | nil =>
    rw [List.zip_nil_right]
    exact .nil
  | cons hab _ ih =>
    cases names with
    | nil => exact .nil
    | cons n names => exact .cons ⟨rfl, hab⟩ (ih (by simpa using hlength))

/-- What the function's annotations are read as, a protocol has the shape of. -/
theorem shapeOf_protocol (hc : Γ.IsCallProtocol h c f) (hf : f.IsAnnotated ps r)
    {names : List String} (hnames : (names ++ ["return"]).Nodup) (hlength : names.length = qs.length)
    (hparams : f.params.tail.map (fun p => (p.name, p.passing)) =
      names.map fun n => (n, Passing.positional))
    (hread : Γ.readAll (fun _ => none) f.annotations = .ok (names.zip qs ++ [("return", s)])) :
    Γ.shapeOf h (.type (.cls c)) = shapeOfAnnotations qs s := by
  have hshape := hc.shapeOfClass hf
  rw [hread] at hshape
  unfold shapeOf
  simp only [hshape, Except.map, shapeOfSignature_annotated hf hnames hlength hparams]
  rfl

theorem annotations_eq (hf : f.IsAnnotated ps r) {names : List String}
    (htypes : (f.params.filterMap fun p => p.type.map fun t => (p.name, t)) = names.zip ps) :
    f.annotations = names.zip ps ++ [("return", r)] := by
  unfold Function.annotations
  rw [htypes, hf.returns]

/-- Where all annotations mean something, a protocol has the shape of their meanings. -/
theorem shapeOf_protocol_of_meaning (hc : Γ.IsCallProtocol h c f) (hf : f.IsAnnotated ps r)
    (hps : List.Forall₂ (fun a b => Γ.meaning a = .denotes b) ps qs)
    (hr : Γ.meaning r = .denotes s) :
    Γ.shapeOf h (.type (.cls c)) = shapeOfAnnotations qs s := by
  obtain ⟨names, hlength, hnames, htypes, hparams⟩ := exists_names hf
  refine shapeOf_protocol hc hf hnames (hlength.trans hps.length_eq) hparams ?_
  have hall : Γ.evaluateAll (fun _ => none) f.annotations =
      .ok (names.zip qs ++ [("return", s)]) := by
    rw [annotations_eq hf htypes]
    exact evaluateAll_eq_ok_iff.2
      (List.rel_append (forall₂_zip hlength hps) (.cons ⟨rfl, hr⟩ .nil))
  unfold readAll
  rw [hall]

/-- Where the first annotation without a meaning means nothing, a protocol has the shape of the
annotations as they are. -/
theorem shapeOf_protocol_of_unknown (hc : Γ.IsCallProtocol h c f) (hf : f.IsAnnotated ps r)
    {before after : List Ty} {a : Ty} (hsplit : ps ++ [r] = before ++ a :: after)
    (hbefore : ∀ b ∈ before, ∃ t, Γ.meaning b = .denotes t) (ha : Γ.meaning a = .unknown) :
    Γ.shapeOf h (.type (.cls c)) = shapeOfAnnotations ps r := by
  obtain ⟨names, hlength, hnames, htypes, hparams⟩ := exists_names hf
  refine shapeOf_protocol hc hf hnames hlength hparams ?_
  have hsnd : f.annotations.map Prod.snd = before ++ a :: after := by
    rw [annotations_eq hf htypes, List.map_append, List.map_snd_zip hlength.ge, ← hsplit]
    rfl
  obtain ⟨xs, ys, hxys, hxs, hys⟩ := List.map_eq_append_iff.1 hsnd
  obtain ⟨y, ys, rfl, hy, -⟩ := List.map_eq_cons_iff.1 hys
  have hall : Γ.evaluateAll (fun _ => none) f.annotations = .error none := by
    rw [hxys]
    refine evaluateAll_of_unknown (fun x hx => hbefore x.2 ?_) (hy ▸ ha)
    exact hxs ▸ List.mem_map_of_mem hx
  unfold readAll
  rw [hall, annotations_eq hf htypes]

/-! ## Shapes of annotations -/

theorem meaning_of_not_text {a : Ty} (ha : a.isText = false) : Γ.meaning a = .denotes a := by
  cases a <;> first | rfl | cases ha

/-- The conversion of arguments does not show in normal form, but for text. -/
theorem normalize_converted {a : Ty} (ha : a.isText = false) :
    a.converted.normalize = a.normalize := by
  cases a <;> first | rfl | cases ha

/-- Annotations give a shape in normal form without open type variables. -/
theorem closed_of_shapeOfAnnotations {S : Shape} (hS : shapeOfAnnotations ps r = .ok S) :
    ∀ t ∈ S.params ++ [S.returns], t.normalize = t ∧ t.freeVars = [] := by
  unfold shapeOfAnnotations at hS
  dsimp only at hS
  split at hS
  · rename_i hopen
    obtain rfl := Except.ok.inj hS
    intro t ht
    refine ⟨?_, List.flatMap_eq_nil_iff.1 (List.isEmpty_iff.1 hopen) t ht⟩
    rcases List.mem_append.1 ht with ht | ht
    · obtain ⟨p, -, rfl⟩ := List.mem_map.1 ht
      exact Ty.normalize_normalize p
    · obtain rfl := List.mem_singleton.1 ht
      exact Ty.normalize_normalize r
  · cases hS

/-- The only failure of annotations is that they give no shape. -/
theorem invalidShape_of_shapeOfAnnotations {e : Failure} (he : shapeOfAnnotations ps r = .error e) :
    ∃ message shown, e = .fault (.invalidShape message shown) := by
  unfold shapeOfAnnotations at he
  dsimp only at he
  split at he
  · cases he
  · exact ⟨_, _, (Except.error.inj he).symm⟩

end Program

open Program

def doublerRef : ClassRef := ⟨"Doubler", "Doubler"⟩

/-- The call function of a protocol that takes a number, which is annotated by text. -/
def doublerCall : Function where
  name := "__call__"
  qualname := "Doubler.__call__"
  params := [⟨"self", none, .positional, none⟩, ⟨"n", some (.text "int"), .positional, none⟩]
  returns := some (.builtin .int)
  body := .block []
  abstract := false
  overloaded := false
  hasReceiver := true

def doublerProgram : Program where
  classes := [{
    ref := doublerRef
    mro := [.declared doublerRef, .builtin .protocol, .builtin .generic, .builtin .object]
    bases := [.builtin .protocol]
    parameters := none
    namespaceEntries := [("__call__", .code (.function 0))]
    annotations := []
    missing := []
    isProtocol := true
    isRuntime := false
    frozen := none
    fields := []
    slots := none
    members := [] }]
  functions := #[doublerCall]
  registrations := []

end CallAdapter
