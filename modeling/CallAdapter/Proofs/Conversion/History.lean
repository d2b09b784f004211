import CallAdapter.Proofs.Conversion.Remembering
import Mathlib

/-!
# What a history of requests can change

A planner that keeps plans looks them up under equality of types, so it may answer with the plan
for another spelling. A request is answered the same after every history exactly when its
spellings all convert alike (`history_independent_iff`). The order in which a union lists its
members is part of the spelling and does matter: `history_changes_conversion` has a history after
which a number is converted to another class of numbers.
-/

namespace CallAdapter

namespace Ty

/-- The members of a union in normal form are told apart by a table. -/
theorem pairwise_unionMembers {t : Ty} (ht : t.normalize = t) (hu : t.isUnion = true) :
    t.unionMembers.Pairwise fun m n => m.same n = false := by
  cases t with
  | union p ms =>
    have hmembers : ∀ m ∈ (ms.map normalize).flatMap flat, m.isUnion = false := by
      intro m hm
      obtain ⟨n, hn, hm⟩ := List.mem_flatMap.1 hm
      obtain ⟨k, -, rfl⟩ := List.mem_map.1 hn
      exact ((normalize_spec k).2 m hm).2
    have hflat : (union p ms).normalize.flat = dedupe ((ms.map normalize).flatMap flat) := by
      rw [normalize, normalizeAll_eq_map, unionOf, flat_ofMembers hmembers]
    rw [ht] at hflat
    show ms.Pairwise _
    rw [show ms = dedupe ((ms.map normalize).flatMap flat) from hflat]
    exact pairwise_dedupe _
  | _ => cases hu

theorem eq_of_same_of_mem {t m n : Ty} (ht : t.normalize = t) (hu : t.isUnion = true)
    (hm : m ∈ t.unionMembers) (hn : n ∈ t.unionMembers) (h : m.same n = true) : m = n := by
  by_contra hne
  have hsymm : Std.Symm fun m n : Ty => m.same n = false :=
    ⟨fun m n hmn => by rw [same_comm, hmn]⟩
  have hdistinct := (pairwise_unionMembers ht hu).forall hm hn hne
  rw [h] at hdistinct
  cases hdistinct

end Ty

namespace Program

variable {Γ : Program}

/-! ## The first request -/

/-- The questions that one question leads to. -/
def Subquestion (s₀ d₀ s d : Ty) : Prop :=
  (s = s₀ ∨ s₀.isUnion = true ∧ s ∈ s₀.unionMembers) ∧
    (d = d₀ ∨ d₀.isUnion = true ∧ d ∈ d₀.unionMembers)

theorem closedPairs_subquestion {s₀ d₀ : Ty} (hn : NormalPair s₀ d₀) :
    ClosedPairs (Subquestion s₀ d₀) where
  normal := by
    rintro s d ⟨rfl | ⟨hsu, hs⟩, rfl | ⟨hdu, hd⟩⟩
    · exact hn
    · exact closedPairs_normalPair.dest hn hdu hd
    · exact closedPairs_normalPair.source hn hsu hs
    · exact closedPairs_normalPair.dest (closedPairs_normalPair.source hn hsu hs) hdu hd
  source := by
    rintro s d m ⟨rfl | ⟨hsu, hs⟩, hd⟩ hu hm
    · exact ⟨.inr ⟨hu, hm⟩, hd⟩
    · cases hu.symm.trans (Ty.isNormalMember_of_mem hn.1 hsu hs).2
  dest := by
    rintro s d m ⟨hs, rfl | ⟨hdu, hd⟩⟩ hu hm
    · exact ⟨hs, .inr ⟨hu, hm⟩⟩
    · cases hu.symm.trans (Ty.isNormalMember_of_mem hn.2 hdu hd).2

theorem eq_of_same_of_part {t₀ t u : Ty} (hn : t₀.normalize = t₀)
    (ht : t = t₀ ∨ t₀.isUnion = true ∧ t ∈ t₀.unionMembers)
    (hu : u = t₀ ∨ t₀.isUnion = true ∧ u ∈ t₀.unionMembers) (h : t.same u = true) : t = u := by
  rcases ht with rfl | ⟨htu, ht⟩
  · rcases hu with rfl | ⟨huu, hu⟩
    · rfl
    · cases huu.symm.trans (Ty.isUnion_congr h ▸ (Ty.isNormalMember_of_mem hn huu hu).2)
  · rcases hu with rfl | ⟨huu, hu⟩
    · cases htu.symm.trans (Ty.isUnion_congr h ▸ (Ty.isNormalMember_of_mem hn htu ht).2)
    · exact Ty.eq_of_same_of_mem hn htu ht hu h

/-- Reuse between equal questions. -/
def EqualReuse : Reuse := fun s d s' d' => s = s' ∧ d = d'

theorem sound_of_first (keeps : Bool) {s₀ d₀ : Ty} (hn : NormalPair s₀ d₀) :
    Planner.Sound Γ keeps (Subquestion s₀ d₀) EqualReuse ⟨keeps, [], []⟩ :=
  Planner.sound_of_empty fun _ _ _ _ _ h h' hkeys =>
    ⟨(eq_of_same_of_part hn.1 h'.1 h.1 hkeys.1).symm,
      (eq_of_same_of_part hn.2 h'.2 h.2 hkeys.2.1).symm⟩

/-- Reuse between equal questions is none. -/
theorem MemoAnswer.noReuse {memo : Memo} {s d : Ty} {x : Except Failure Plan}
    (h : Γ.MemoAnswer EqualReuse memo s d x) : Γ.MemoAnswer NoReuse memo s d x :=
  h.transfer rfl fun hplans => hplans.transfer fun {s d s' d' r} hreuse h => by
    obtain ⟨rfl, rfl⟩ := hreuse
    exact h

/-! ## Histories -/

/-- The answer to a request after a history of requests to a planner that keeps plans. -/
def answerAfter (Γ : Program) (history : List PlanRequest) (r : PlanRequest) :
    Except Failure Plan :=
  ((Γ.planFor r).run.run (Γ.afterRequests history ⟨true, [], []⟩)).1

/-- The answer of a planner that keeps nothing. -/
def freshAnswer (Γ : Program) (r : PlanRequest) : Except Failure Plan :=
  ((Γ.planFor r).run.run ⟨false, [], []⟩).1

/-- Two answers convert every value alike: to equal values, or with failed casts in both. -/
def ConvertAlike (Γ : Program) : Except Failure Plan → Except Failure Plan → Prop
  | .ok p, .ok q => ∀ h v, effect (Γ.applyPlan h p v) = effect (Γ.applyPlan h q v)
  | .error e, .error f => e = f
  | _, _ => False

/-- The request asks for the same, in another spelling of its types. -/
def Respells (Γ : Program) (r' r : PlanRequest) : Prop :=
  r'.memo = r.memo ∧ (r'.asked Γ).1.same (r.asked Γ).1 = true ∧
    (r'.asked Γ).2.same (r.asked Γ).2 = true

/-- Planned afresh, all spellings of the request convert alike. -/
def SpellingsAlike (Γ : Program) (r : PlanRequest) : Prop :=
  ∀ r', Γ.Respells r' r → Γ.ConvertAlike (Γ.freshAnswer r') (Γ.freshAnswer r)

theorem requestAnswer_answerAfter (history : List PlanRequest) (r : PlanRequest) :
    Γ.RequestAnswer HistoryReuse r (Γ.answerAfter history r) :=
  (planFor_keeps closedPairs_normalPair r (normalPair_asked r) _ (sound_history true history)).2

theorem requestAnswer_freshAnswer (r : PlanRequest) :
    Γ.RequestAnswer NoReuse r (Γ.freshAnswer r) := by
  have hempty : Planner.Sound Γ false NormalPair NoReuse ⟨false, [], []⟩ :=
    Planner.sound_of_empty fun h => nomatch h
  exact (planFor_keeps closedPairs_normalPair r (normalPair_asked r) _ hempty).2

/-- The request for a pair whose answer is kept in the table. -/
def requestFor (s d : Ty) : Memo → PlanRequest
  | .plans => .types s d
  | .results => .result s d

theorem asked_requestFor {memo : Memo} {s d : Ty} (hn : NormalPair s d) :
    (requestFor s d memo).asked Γ = (s, d) := by
  cases memo <;> exact Prod.ext hn.1 hn.2

theorem memo_requestFor (memo : Memo) (s d : Ty) : (requestFor s d memo).memo = memo := by
  cases memo <;> rfl

/-- Where all spellings convert alike, a plan made with the help of other spellings converts like the
fresh one: for each value it does what the fresh plan of some spelling does. -/
theorem applyPlan_of_spellingsAlike {r : PlanRequest} (hr : Γ.SpellingsAlike r)
    (hsettled : r.memo.settled (r.asked Γ).1 (r.asked Γ).2 = none) {p q : Plan}
    (hp : Γ.PlanAnswer HistoryReuse (r.asked Γ).1 (r.asked Γ).2 (.ok p))
    (hq : Γ.freshAnswer r = .ok q) : Γ.ConvertAlike (.ok p) (.ok q) := by
  intro h v
  obtain ⟨s', d', hs', hd', hn', hlike⟩ := runs_like_spelling betweenSpellings_historyReuse hp.2
    (normalPair_asked (Γ := Γ) r) rfl h v
  have hspells : Γ.Respells (requestFor s' d' r.memo) r := by
    refine ⟨memo_requestFor .., ?_⟩
    rw [asked_requestFor hn']
    exact ⟨hs', hd'⟩
  have halike := hr _ hspells
  have hfresh := requestAnswer_freshAnswer (Γ := Γ) (requestFor s' d' r.memo)
  unfold RequestAnswer MemoAnswer at hfresh
  rw [memo_requestFor, asked_requestFor hn', r.memo.settled_congr hs' hd', hsettled] at hfresh
  rw [hq] at halike
  cases hz : Γ.freshAnswer (requestFor s' d' r.memo) with
  | error e =>
    rw [hz] at halike
    cases halike
  | ok p' =>
    rw [hz] at halike hfresh
    rw [← halike h v, applyPlan_of_handsOn hp.1, applyPlan_of_handsOn hfresh.1]
    exact hlike _ (eq_freshVerdict hn' hfresh.2).symm

/-- Where all spellings convert alike, an answer made with the help of other spellings converts
like the fresh one. -/
theorem convertAlike_of_spellingsAlike {r : PlanRequest} (hr : Γ.SpellingsAlike r)
    {x : Except Failure Plan} (hx : Γ.RequestAnswer HistoryReuse r x) :
    Γ.ConvertAlike x (Γ.freshAnswer r) := by
  have hfresh := requestAnswer_freshAnswer (Γ := Γ) r
  unfold RequestAnswer MemoAnswer at hx hfresh
  cases hsettled : r.memo.settled (r.asked Γ).1 (r.asked Γ).2 with
  | some w =>
    rw [hsettled] at hx hfresh
    obtain ⟨p, rfl, hp, hw, hdiscard⟩ := hx
    obtain ⟨q, hq, hpaired, hw', hdiscard'⟩ := hfresh
    rw [hq]
    intro h v
    rw [applyPlan_of_paired hp, applyPlan_of_paired hpaired, hw, hw', hdiscard, hdiscard']
  | none =>
    rw [hsettled] at hx hfresh
    have hkeys : ∀ s d s' d', HistoryReuse s d s' d' → Confusable s d s' d' :=
      fun _ _ _ _ h => h.2
    cases x with
    | error e =>
      cases hy : Γ.freshAnswer r with
      | error e' =>
        rw [hy] at hfresh
        show e = e'
        rw [eq_typeError_of_plans hx e rfl, eq_typeError_of_plans hfresh e' rfl]
      | ok q =>
        rw [hy] at hfresh
        cases isOk_eq_of_plans hkeys hx hfresh.2
    | ok p =>
      cases hy : Γ.freshAnswer r with
      | error e' =>
        rw [hy] at hfresh
        cases isOk_eq_of_plans hkeys hx.2 hfresh
      | ok q => exact applyPlan_of_spellingsAlike hr hsettled hx hy

/-- The pair that a request asks about can be a key of the tables. -/
def IsKey (Γ : Program) (r : PlanRequest) : Prop :=
  (r.asked Γ).1.hashable = true ∧ (r.asked Γ).2.hashable = true

theorem Respells.isKey {r r' : PlanRequest} (h : Γ.Respells r' r) (hr : Γ.IsKey r) : Γ.IsKey r' :=
  ⟨(Ty.hashable_congr h.2.1).trans hr.1, (Ty.hashable_congr h.2.2).trans hr.2⟩

theorem isOk_of_memoAnswer {memo : Memo} {s d : Ty} {x : Except Failure Plan}
    (hs : s.hashable = true) (hd : d.hashable = true) (hx : Γ.MemoAnswer NoReuse memo s d x) :
    x.isOk = true := by
  unfold MemoAnswer at hx
  cases hsettled : memo.settled s d with
  | some w =>
    rw [hsettled] at hx
    obtain ⟨p, rfl, -⟩ := hx
    rfl
  | none =>
    rw [hsettled] at hx
    cases x with
    | error e => exact isOk_of_plans (fun _ _ _ _ h => h.elim) hx hs hd
    | ok p => rfl

theorem applyPlan_eq_of_memoAnswer {memo : Memo} {s d : Ty} {p q : Plan}
    (hp : Γ.MemoAnswer NoReuse memo s d (.ok p)) (hq : Γ.MemoAnswer NoReuse memo s d (.ok q))
    (h : Heap) (v : Value) : Γ.applyPlan h p v = Γ.applyPlan h q v := by
  unfold MemoAnswer at hp hq
  cases hsettled : memo.settled s d with
  | some w =>
    rw [hsettled] at hp hq
    obtain ⟨_, hp, hpaired, hw, hdiscard⟩ := hp
    obtain ⟨_, hq, hpaired', hw', hdiscard'⟩ := hq
    rw [Except.ok.inj hp, Except.ok.inj hq, applyPlan_of_paired hpaired,
      applyPlan_of_paired hpaired', hw, hw', hdiscard, hdiscard']
  | none =>
    rw [hsettled] at hp hq
    rw [applyPlan_of_handsOn hp.1, applyPlan_of_handsOn hq.1,
      Except.ok.inj (plans_noReuse_unique hp.2 hq.2)]

/-- Asked right after another spelling, a request gets the plan for that spelling. -/
theorem answerAfter_respelled {r r' : PlanRequest} (h : Γ.Respells r' r) (hr : Γ.IsKey r) :
    ∃ p, Γ.answerAfter [r'] r = .ok p ∧
      Γ.MemoAnswer NoReuse r'.memo (r'.asked Γ).1 (r'.asked Γ).2 (.ok p) := by
  have hr' := h.isKey hr
  have hn' := normalPair_asked (Γ := Γ) r'
  obtain ⟨hsound, hanswer⟩ := planFor_keeps (closedPairs_subquestion hn') r' ⟨.inl rfl, .inl rfl⟩ _
    (sound_of_first true hn')
  have hok := isOk_of_memoAnswer hr'.1 hr'.2 (MemoAnswer.noReuse hanswer)
  cases hrun : (Γ.planFor r').run.run ⟨true, [], []⟩ with
  | mk x p =>
    rw [hrun] at hsound hok
    cases x with
    | error e => cases hok
    | ok plan =>
      rw [planFor_eq] at hrun
      have hsome := isSome_find_of_remembered rfl hr'.1 hr'.2 hrun
      obtain ⟨plan', hfind⟩ := Option.isSome_iff_exists.1 hsome
      obtain ⟨s, d, hmem, hs, hd⟩ := PlanTable.mem_of_find hfind
      obtain ⟨hpart, -, -, hkept⟩ := hsound.kept _ _ hmem
      obtain rfl : s = (r'.asked Γ).1 := eq_of_same_of_part hn'.1 hpart.1 (.inl rfl) hs
      obtain rfl : d = (r'.asked Γ).2 := eq_of_same_of_part hn'.2 hpart.2 (.inl rfl) hd
      refine ⟨plan', ?_, MemoAnswer.noReuse hkept⟩
      rw [find_congr _ h.2.1 h.2.2, h.1] at hfind
      unfold answerAfter afterRequests
      rw [List.foldl_cons, List.foldl_nil, planFor_eq r', hrun, planFor_eq r,
        remembered_of_find hsound.memoize hr.1 hr.2 hfind]

/-- A request converts the same after every history where all its spellings convert alike, and,
among requests whose answers are kept, only there. -/
theorem history_independent_iff (Γ : Program) (r : PlanRequest) :
    (Γ.SpellingsAlike r →
        ∀ history, Γ.ConvertAlike (Γ.answerAfter history r) (Γ.freshAnswer r)) ∧
      (Γ.IsKey r → (∀ history, Γ.ConvertAlike (Γ.answerAfter history r) (Γ.freshAnswer r)) →
        Γ.SpellingsAlike r) := by
  refine ⟨fun hr history =>
    convertAlike_of_spellingsAlike hr (requestAnswer_answerAfter history r), ?_⟩
  intro hkey hhistory r' hrespells
  obtain ⟨p, hp, hkept⟩ := answerAfter_respelled hrespells hkey
  have hfresh := requestAnswer_freshAnswer (Γ := Γ) r'
  have hok := isOk_of_memoAnswer (hrespells.isKey hkey).1 (hrespells.isKey hkey).2 hfresh
  cases hq : Γ.freshAnswer r' with
  | error e =>
    rw [hq] at hok
    cases hok
  | ok q =>
    rw [hq] at hfresh
    have halike := hhistory [r']
    rw [hp] at halike
    cases hy : Γ.freshAnswer r with
    | error e =>
      rw [hy] at halike
      cases halike
    | ok q' =>
      rw [hy] at halike
      intro h v
      rw [applyPlan_eq_of_memoAnswer hfresh hkept h v]
      exact halike h v

theorem ConvertAlike.map_eq {x y : Except Failure Plan} (hxy : Γ.ConvertAlike x y) (h : Heap)
    (v : Value) :
    (x.map fun p => effect (Γ.applyPlan h p v)) = y.map fun p => effect (Γ.applyPlan h p v) := by
  cases x with
  | error e =>
    cases y with
    | error f => exact congrArg Except.error hxy
    | ok q => cases hxy
  | ok p =>
    cases y with
    | error f => cases hxy
    | ok q => exact congrArg Except.ok (hxy h v)

/-- The choice of a decimal or a fraction, and the same choice in the other order. -/
def decimalFirst : Ty := .union false [.builtin .decimal, .builtin .fraction]

def fractionFirst : Ty := .union false [.builtin .fraction, .builtin .decimal]

/-- An integer planned into the one order becomes a decimal, and after that also into the other,
where a fresh planner makes it a fraction. -/
theorem history_changes_conversion :
    ¬∀ (Γ : Program) (history : List PlanRequest) (r : PlanRequest),
      Γ.ConvertAlike (Γ.answerAfter history r) (Γ.freshAnswer r) := by
  intro halike
  have heffect := (halike .empty [.types (.builtin .int) decimalFirst]
    (.types (.builtin .int) fractionFirst)).map_eq .empty (.int 1)
  have hafter : ((Program.empty.answerAfter [.types (.builtin .int) decimalFirst]
      (.types (.builtin .int) fractionFirst)).map fun p =>
        effect (Program.empty.applyPlan .empty p (.int 1))) =
      .ok (.ok (.scalar (.decimal (Decimal.ofInt 1)))) := by
    with_unfolding_all rfl
  have hfresh : ((Program.empty.freshAnswer (.types (.builtin .int) fractionFirst)).map fun p =>
        effect (Program.empty.applyPlan .empty p (.int 1))) =
      .ok (.ok (.scalar (.fraction 1))) := by
    with_unfolding_all rfl
  rw [hafter, hfresh] at heffect
  cases heffect

end Program

end CallAdapter
