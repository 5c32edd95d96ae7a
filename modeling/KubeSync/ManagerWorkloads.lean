import KubeSync.ManagerExclusion

/-! # One manager workload for a namespace

The workload of a Manager is applied before its phase is written, so that a reconcile that fails in
between leaves a workload that no other reconcile sees.  `OneDeployed` says that at most one Manager
has a workload, and `always_oneDeployed_iff` gives the exact condition on a run with fresh reads: a
reconcile that deploys finds no workload of a Manager that is not active. -/

namespace KubeSync.ManagerController

open Versioned (Store)
open Controller (bind_eq_ok)

variable {r : Reconciler} {s s' : State} {req : String} {env : Env}

/-- A workload with the name of the Manager `a` is in the cluster. -/
def HasWorkload (c : Cluster) (a : String) : Prop :=
  (c (.deployment, a)).isSome = true ∨ (c (.daemonSet, a)).isSome = true

/-- `a` is a Manager of the namespace and has its workload. -/
def Deployed (s : State) (a : String) : Prop :=
  (s.managers.value a).isSome = true ∧ HasWorkload s.objects a

def OneDeployed (s : State) : Prop := ∀ a b, Deployed s a → Deployed s b → a = b

theorem OneDeployed.mono (h : OneDeployed s) (hm : ∀ a, Deployed s' a → Deployed s a) :
    OneDeployed s' :=
  fun a b ha hb => h a b (hm a ha) (hm b hb)

/-- The reconcile applies the workload of `req`: the calls before that one and the call itself do
not fail. -/
structure Deploys (r : Reconciler) (s : State) (req : String) (env : Env) (n : ℕ) (m : Manager)
    (b : Reconciler.Built) : Prop extends Passes r s req env n m b where
  app : b.app.isSome = true
  calls : ∀ c ∈ [ApiCall.serviceAccount, .role, .roleBinding, .app], env.fails c = false

theorem metaOf_name {owner name : String} {m : Manager} {ann : List (String × String)}
    {md : ObjectMeta} (h : r.metaOf owner m name ann = .ok md) : md.name = name := by
  unfold Reconciler.metaOf at h
  split at h
  · cases h
  · cases h
    rfl

/-- The workload of a Manager has its name. -/
theorem build_app_key {m : Manager} {b : Reconciler.Built} {app : Object}
    (h : r.build req m = .ok b) (happ : b.app = some app) :
    app.key = (.deployment, req) ∧ otherKind app = .daemonSet ∨
      app.key = (.daemonSet, req) ∧ otherKind app = .deployment := by
  unfold Reconciler.build at h
  obtain ⟨sa, -, h⟩ := bind_eq_ok.mp h
  obtain ⟨role, -, h⟩ := bind_eq_ok.mp h
  obtain ⟨rb, -, h⟩ := bind_eq_ok.mp h
  obtain ⟨app', hdep, h⟩ := bind_eq_ok.mp h
  obtain ⟨svc, -, h⟩ := bind_eq_ok.mp h
  obtain ⟨ig, -, h⟩ := bind_eq_ok.mp h
  cases h
  obtain rfl : app' = some app := happ
  unfold Reconciler.desiredDeployment at hdep
  split at hdep
  · cases hdep
  · obtain ⟨limits, -, hdep⟩ := bind_eq_ok.mp hdep
    split at hdep
    · cases hdep
    · rename_i kind hkind
      obtain ⟨md, hmd, hdep⟩ := bind_eq_ok.mp hdep
      cases hdep
      have hname := metaOf_name hmd
      unfold Reconciler.workloadKind at hkind
      split at hkind
      · cases hkind
        exact .inl ⟨congrArg (Prod.mk _) hname, rfl⟩
      · cases hkind
        exact .inr ⟨congrArg (Prod.mk _) hname, rfl⟩
      · split at hkind
        · cases hkind
          exact .inl ⟨congrArg (Prod.mk _) hname, rfl⟩
        · cases hkind

/-- The calls that are about a workload are about that of `req`; only the fifth applies one. -/
theorem calls_key {m : Manager} {b : Reconciler.Built} (hb : r.build req m = .ok b) {k : Call}
    (hk : k ∈ b.calls req) (hkind : k.key.1 = .deployment ∨ k.key.1 = .daemonSet) :
    k.key.2 = req ∧ (k.value.isSome = true → k.call = .app) := by
  unfold Reconciler.Built.calls Reconciler.Built.access at hk
  cases happ : b.app with
  | none =>
      rw [happ] at hk
      simp only [List.append_nil, List.mem_cons, List.not_mem_nil, or_false] at hk
      rcases hk with rfl | rfl | rfl <;> rcases hkind with h | h <;> cases h
  | some app =>
      rw [happ] at hk
      simp only [List.cons_append, List.nil_append, List.mem_cons, List.not_mem_nil,
        or_false] at hk
      rcases hk with rfl | rfl | rfl | rfl | rfl | rfl | rfl
      · rcases hkind with h | h <;> cases h
      · rcases hkind with h | h <;> cases h
      · rcases hkind with h | h <;> cases h
      · exact ⟨rfl, nofun⟩
      · rcases build_app_key hb happ with ⟨hkey, -⟩ | ⟨hkey, -⟩ <;>
          exact ⟨congrArg Prod.snd hkey, fun _ => rfl⟩
      · rcases hkind with h | h <;> cases h
      · rcases hkind with h | h <;> cases h

theorem access_key {b : Reconciler.Built} {k : Call} (hk : k ∈ b.access) :
    k.key.1 ≠ .deployment ∧ k.key.1 ≠ .daemonSet := by
  unfold Reconciler.Built.access at hk
  simp only [List.mem_cons, List.not_mem_nil, or_false] at hk
  rcases hk with rfl | rfl | rfl <;> exact ⟨nofun, nofun⟩

theorem hasWorkload_congr {c c' : Cluster} {a : String}
    (h : ∀ kind, kind = .deployment ∨ kind = .daemonSet → c' (kind, a) = c (kind, a)) :
    HasWorkload c' a ↔ HasWorkload c a := by
  unfold HasWorkload
  rw [h _ (.inl rfl), h _ (.inr rfl)]

theorem hasWorkload_of_ne {m : Manager} {b : Reconciler.Built} (hb : r.build req m = .ok b)
    (c : Cluster) {a : String} (ha : a ≠ req) :
    HasWorkload (execCalls env c (b.calls req)).1 a ↔ HasWorkload c a := by
  refine hasWorkload_congr fun kind hkind => execCalls_of_ne fun k hk he => ?_
  have hreq := (calls_key hb hk (by rw [he]; exact hkind)).1
  rw [he] at hreq
  exact ha hreq

theorem hasWorkload_access (b : Reconciler.Built) (c : Cluster) (a : String) :
    HasWorkload (execCalls env c b.access).1 a ↔ HasWorkload c a := by
  refine hasWorkload_congr fun kind hkind => execCalls_of_ne fun k hk he => ?_
  have hkey := access_key hk
  rw [he] at hkey
  exact hkind.elim hkey.1 hkey.2

/-- The calls put the workload of `req` there when they get to it. -/
theorem hasWorkload_of_calls {m : Manager} {b : Reconciler.Built} (hb : r.build req m = .ok b)
    (happ : b.app.isSome = true)
    (hcalls : ∀ c ∈ [ApiCall.serviceAccount, .role, .roleBinding, .app], env.fails c = false)
    (c : Cluster) : HasWorkload (execCalls env c (b.calls req)).1 req := by
  obtain ⟨app, happ⟩ := Option.isSome_iff_exists.mp happ
  have hkey := build_app_key hb happ
  have hthere : (execCalls env c (b.calls req)).1 app.key = some app := by
    unfold Reconciler.Built.calls Reconciler.Built.access
    rw [happ]
    refine execCalls_of_made (k := applyCall .app app)
      [applyCall .serviceAccount (.serviceAccount b.sa), applyCall .role (.role b.role),
        applyCall .roleBinding (.roleBinding b.rb),
        { call := .deleteOther, key := (otherKind app, req), value := none, ignored := true }]
      [applyCall .service (.service b.svc), applyCall .ingress (.ingress b.ig)] ?_
      (hcalls .app (by simp)) ?_
    · intro j hj hf
      simp only [List.mem_cons, List.not_mem_nil, or_false] at hj
      rcases hj with rfl | rfl | rfl | rfl
      · cases (hcalls .serviceAccount (by simp)).symm.trans hf
      · cases (hcalls .role (by simp)).symm.trans hf
      · cases (hcalls .roleBinding (by simp)).symm.trans hf
      · rfl
    · intro j hj he
      simp only [List.mem_cons, List.not_mem_nil, or_false] at hj
      change j.key = app.key at he
      rcases hkey with ⟨hkey, -⟩ | ⟨hkey, -⟩ <;> rw [hkey] at he <;> rcases hj with rfl | rfl <;>
        cases he
  rcases hkey with ⟨hkey, -⟩ | ⟨hkey, -⟩
  · rw [hkey] at hthere
    exact .inl (by rw [hthere]; rfl)
  · rw [hkey] at hthere
    exact .inr (by rw [hthere]; rfl)

/-- They put none there when they stop before it. -/
theorem hasWorkload_of_stop {m : Manager} {b : Reconciler.Built} (hb : r.build req m = .ok b)
    (hstop : b.app.isSome = true →
      ∃ c ∈ [ApiCall.serviceAccount, .role, .roleBinding, .app], env.fails c = true)
    {c : Cluster} (h : HasWorkload (execCalls env c (b.calls req)).1 req) :
    HasWorkload c req := by
  by_cases happ : env.fails .app = true
  · have hback : ∀ kind, kind = .deployment ∨ kind = .daemonSet →
        ((execCalls env c (b.calls req)).1 (kind, req)).isSome = true →
          (c (kind, req)).isSome = true := by
      intro kind hkind hsome
      obtain ⟨o, ho⟩ := Option.isSome_iff_exists.mp hsome
      rcases execCalls_some ho with hc | ⟨k, hk, hkey, hval, hfk⟩
      · exact Option.isSome_iff_exists.mpr ⟨o, hc⟩
      · have hcall := (calls_key hb hk (by rw [hkey]; exact hkind)).2 (by rw [hval]; rfl)
        rw [hcall, happ] at hfk
        cases hfk
    exact h.imp (hback _ (.inl rfl)) (hback _ (.inr rfl))
  · have haccess : HasWorkload (execCalls env c b.access).1 req := by
      unfold Reconciler.Built.calls at h
      cases hb' : b.app with
      | none =>
          rw [hb', List.append_nil] at h
          exact h
      | some app =>
          obtain ⟨j, hj, hf⟩ := hstop (by rw [hb']; rfl)
          have hpre : ∃ k ∈ b.access, env.fails k.call = true ∧ k.ignored = false := by
            unfold Reconciler.Built.access
            simp only [List.mem_cons, List.not_mem_nil, or_false] at hj
            rcases hj with rfl | rfl | rfl | rfl
            · exact ⟨_, List.mem_cons_self, hf, rfl⟩
            · exact ⟨_, List.mem_cons_of_mem _ List.mem_cons_self, hf, rfl⟩
            · exact ⟨_, List.mem_cons_of_mem _ (List.mem_cons_of_mem _ List.mem_cons_self), hf, rfl⟩
            · exact absurd hf happ
          rw [execCalls_append_of_stop _ hpre] at h
          exact h
    exact (hasWorkload_access b c req).mp haccess

theorem finish_objects (s : State) (req : String) (n : ℕ) (b : Reconciler.Built) (env : Env) :
    (finish s req n b env).1.objects = (execCalls env s.objects (b.calls req)).1 := by
  unfold finish
  generalize execCalls env s.objects (b.calls req) = x
  obtain ⟨objects, ok⟩ := x
  dsimp only
  split
  · rfl
  · split
    · rfl
    · split
      · rfl
      · rcases updatePhase_cases { s with objects } req n .succeeded with ⟨m, -, hu⟩ | ⟨-, hu⟩
        · rw [hu]
          rfl
        · rw [hu]

/-- A reconcile neither creates nor deletes a Manager. -/
theorem reconcile_stored (r : Reconciler) (s : State) (req : String) (env : Env) (a : String) :
    ((reconcile r s req env).1.managers.value a).isSome = (s.managers.value a).isSome := by
  rcases reconcile_managers r s req env with ⟨n, m, b, hc, hm⟩ | ⟨-, hm⟩
  · rw [hm]
    by_cases ha : a = req
    · rw [ha, Store.value_write_self, Store.value, hc.current]
      rfl
    · rw [s.managers.value_write_of_ne _ ha]
  · rw [hm]

/-- **What a reconcile deploys.** -/
theorem reconcile_deployed (r : Reconciler) (s : State) (req : String) (env : Env) :
    (∃ n m b, Deploys r s req env n m b ∧ HasWorkload (reconcile r s req env).1.objects req ∧
        ∀ a, a ≠ req → (Deployed (reconcile r s req env).1 a ↔ Deployed s a)) ∨
      (∀ n m b, ¬ Deploys r s req env n m b) ∧
        ∀ a, Deployed (reconcile r s req env).1 a → Deployed s a := by
  have hstored := reconcile_stored r s req env
  rcases reconcile_cases r s req env with ⟨hn, hs⟩ | ⟨n, m, b, hp⟩
  · refine .inr ⟨fun n m b h => hn n m b h.toPasses, fun a ha => ?_⟩
    rw [hs] at ha
    exact ha
  · have hobj : (reconcile r s req env).1.objects = (execCalls env s.objects (b.calls req)).1 := by
      rw [reconcile_of_passes hp, finish_objects]
    have hother : ∀ a, a ≠ req → (Deployed (reconcile r s req env).1 a ↔ Deployed s a) := by
      intro a ha
      unfold Deployed
      rw [hstored a, hobj, hasWorkload_of_ne hp.build s.objects ha]
    by_cases hd : Deploys r s req env n m b
    · refine .inl ⟨n, m, b, hd, ?_, hother⟩
      rw [hobj]
      exact hasWorkload_of_calls hp.build hd.app hd.calls s.objects
    · refine .inr ⟨fun n' m' b' h' => ?_, fun a ha => ?_⟩
      · obtain ⟨rfl, rfl, rfl⟩ := hp.unique h'.toPasses
        exact hd h'
      · by_cases hne : a = req
        · subst hne
          refine ⟨by rw [← hstored a]; exact ha.1, ?_⟩
          rw [Deployed, hobj] at ha
          refine hasWorkload_of_stop hp.build (fun happ => ?_) ha.2
          by_contra hno
          exact hd ⟨hp, happ, fun c hc => Bool.eq_false_iff.mpr fun hf => hno ⟨c, hc, hf⟩⟩
        · exact (hother a hne).mp ha

/-- The reads of a reconcile are not behind. -/
def Label.Fresh : Label → Prop
  | .reconcile _ env => env.lag = 0 ∧ ∀ a, env.listLag a = 0
  | _ => True

theorem lagOf_of_fresh (h : (Label.reconcile req env).Fresh) (a : String) :
    env.lagOf req a = 0 := by
  unfold Env.lagOf
  split
  · rw [h.1, Nat.min_zero]
  · exact h.2 a

/-- Fresh reads list the active Managers. -/
theorem mem_listed_of_fresh (h : (Label.reconcile req env).Fresh) {a : String}
    (ha : Active s a) : a ∈ listed s env req := by
  obtain ⟨m, hm, hp⟩ := ha
  obtain ⟨⟨n, m'⟩, hc, rfl⟩ := Option.map_eq_some_iff.mp hm
  refine mem_listed.mpr ⟨s.known a _ hm, n, m', ?_, hp⟩
  rw [lagOf_of_fresh h]
  exact hc

theorem active_of_listed (h : (Label.reconcile req env).Fresh) (ha : req ∈ listed s env req) :
    Active s req := by
  obtain ⟨-, n, m, hseen, hp⟩ := mem_listed.mp ha
  rw [lagOf_of_fresh h] at hseen
  exact active_of_seen hseen hp

theorem showsActive_of_fresh {l : Label} (h : l.Fresh) : ShowsActive r s l := by
  cases l with
  | apply name ns uid spec => trivial
  | delete name => trivial
  | reconcile req env => exact fun _ a _ ha => mem_listed_of_fresh h ha

/-- The condition on a step: a reconcile that applies a workload finds every other Manager that has
one active, and a Manager that is created does not find a workload of its name next to another
one. -/
def Reserved (r : Reconciler) (s : State) : Label → Prop
  | .apply name _ _ _ =>
      s.managers.value name = none → HasWorkload s.objects name → ∀ a, ¬ Deployed s a
  | .delete _ => True
  | .reconcile req env =>
      (∃ n m b, Deploys r s req env n m b) → ∀ a, a ≠ req → Deployed s a → Active s a

theorem deployed_write (s : State) (name : String) (m : Manager) (a : String) :
    Deployed (s.write name m) a ↔ Deployed s a ∨ a = name ∧ HasWorkload s.objects name := by
  unfold Deployed State.write
  by_cases ha : a = name
  · subst ha
    simp only [Store.value_write_self, Option.isSome_some, true_and]
    exact ⟨.inr, fun h => h.elim And.right id⟩
  · simp only [s.managers.value_write_of_ne m ha, ha, false_and, or_false]

theorem step_apply_oneDeployed_iff {name ns uid : String} {spec : ManagerSpec}
    (h : OneDeployed s) (hs : step r s (.apply name ns uid spec) = some s') :
    OneDeployed s' ↔ Reserved r s (.apply name ns uid spec) := by
  dsimp only [step] at hs
  cases hv : s.managers.value name with
  | some old =>
      rw [hv] at hs
      cases hs
      refine iff_of_true (h.mono fun a ha => ?_) fun hnone => by rw [hv] at hnone; cases hnone
      rcases (deployed_write s name _ a).mp ha with ha | ⟨rfl, hw⟩
      · exact ha
      · exact ⟨by rw [hv]; rfl, hw⟩
  | none =>
      rw [hv] at hs
      cases hs
      have hd := deployed_write s name { ns, uid, spec }
      have hne : ∀ a, Deployed s a → a ≠ name := by
        rintro a ha rfl
        rw [Deployed, hv] at ha
        cases ha.1
      constructor
      · intro h' _ hw a ha
        exact hne a ha (h' a name ((hd a).mpr (.inl ha)) ((hd name).mpr (.inr ⟨rfl, hw⟩)))
      · intro hres a b ha hb
        rcases (hd a).mp ha with hsa | ⟨rfl, hw⟩
        · rcases (hd b).mp hb with hsb | ⟨rfl, hw⟩
          · exact h a b hsa hsb
          · exact absurd hsa (hres hv hw a)
        · rcases (hd b).mp hb with hsb | ⟨rfl, -⟩
          · exact absurd hsb (hres hv hw b)
          · rfl

theorem deployed_of_delete {name : String} (h : step r s (.delete name) = some s') {a : String}
    (ha : Deployed s' a) : Deployed s a := by
  dsimp only [step] at h
  cases hv : s.managers.value name with
  | none =>
      rw [hv] at h
      cases h
      exact ha
  | some old =>
      rw [hv] at h
      cases h
      refine ⟨?_, ha.2⟩
      by_cases hne : a = name
      · rw [hne, hv]
        rfl
      · have hstored := ha.1
        rw [State.remove, s.managers.value_remove_of_ne hne] at hstored
        exact hstored

theorem step_reconcile_oneDeployed_iff (hact : OneActive s)
    (hf : (Label.reconcile req env).Fresh) (h : OneDeployed s) :
    OneDeployed (reconcile r s req env).1 ↔ Reserved r s (.reconcile req env) := by
  rcases reconcile_deployed r s req env with ⟨n, m, b, hd, hw, hother⟩ | ⟨hno, hd⟩
  · have hreq : Deployed (reconcile r s req env).1 req := by
      refine ⟨?_, hw⟩
      have hseen := hd.seen
      rw [hf.1] at hseen
      rw [reconcile_stored, Store.value, Store.current, hseen]
      rfl
    constructor
    · intro h' _ a hne ha
      exact absurd (h' a req ((hother a hne).mpr ha) hreq) hne
    · intro hres
      have honly : ∀ a, Deployed (reconcile r s req env).1 a → a = req := by
        intro a ha
        by_contra hne
        have hacta := hres ⟨n, m, b, hd⟩ a hne ((hother a hne).mp ha)
        obtain ⟨a', hfirst, ha'⟩ := firstListed_of_mem (mem_listed_of_fresh hf hacta)
        obtain rfl := hd.first a' hfirst
        exact hne (hact a a' hacta (active_of_listed hf ha'))
      intro a a' ha ha'
      rw [honly a ha, honly a' ha']
  · refine iff_of_true (h.mono hd) ?_
    rintro ⟨n, m, b, hd'⟩
    exact absurd hd' (hno n m b)

theorem step_oneDeployed_iff {l : Label} (hact : OneActive s) (hf : l.Fresh) (h : OneDeployed s)
    (hs : step r s l = some s') : OneDeployed s' ↔ Reserved r s l := by
  cases l with
  | apply name ns uid spec => exact step_apply_oneDeployed_iff h hs
  | delete name => exact iff_of_true (h.mono fun a => deployed_of_delete hs) trivial
  | reconcile req env =>
      obtain rfl := Option.some.inj hs
      exact step_reconcile_oneDeployed_iff hact hf h

/-- **When a namespace has one manager workload.**  With fresh reads, over every order of
creations, deletions and reconciles and with any call failing in them, at most one Manager has its
workload in every state exactly when that was so at the start and, along the run, no reconcile
applies a workload while a Manager that is not active already has one and no Manager is created
over a workload left of its name next to that of another Manager. -/
theorem always_oneDeployed_iff (r : Reconciler) (s : State) (ls : List Label)
    (hact : OneActive s) (hf : ∀ l ∈ ls, l.Fresh) :
    Lts.Always (step r) OneDeployed s ls ↔
      OneDeployed s ∧ Lts.Along (step r) (Reserved r) s ls := by
  refine Lts.always_iff_along_of_invariant ?_ ?_ (fun l _ s => step_total r s l) hact
  · intro l hl s s' hi hs
    exact (step_oneActive_iff hi hs).mpr (showsActive_of_fresh (hf l hl))
  · intro l hl s s' hi hp hs
    exact step_oneDeployed_iff hi (hf l hl) hp hs

/-- With no call failing the second Manager is turned away. -/
theorem spare_refused_oneDeployed :
    Lts.Always (step withImage) OneDeployed State.empty
      (mainActive ++ [.reconcile "spare" {}]) := by
  have hnone : ∀ a, ¬ HasWorkload State.empty.objects a := fun a h =>
    h.elim nofun nofun
  refine (always_oneDeployed_iff withImage State.empty _ (fun a b ha => ?_) ?_).mpr ⟨?_, ?_⟩
  · obtain ⟨m, hm, -⟩ := ha
    cases hm
  · simp [mainActive, Label.Fresh]
  · exact fun a b ha => absurd ha.2 (hnone a)
  · refine ⟨fun _ h => absurd h (hnone _), fun s₁ h₁ => ?_⟩
    cases h₁
    refine ⟨fun _ h => absurd h (hnone _), fun s₂ h₂ => ?_⟩
    cases h₂
    refine ⟨fun _ a _ ha => absurd ha.2 (hnone a), fun s₃ h₃ => ?_⟩
    cases h₃
    refine ⟨?_, fun s₄ h₄ => trivial⟩
    rintro ⟨n, m, b, hd⟩
    exact absurd (hd.first "main" rfl) (by decide)

/-- The Service of `main` cannot be applied, so that its phase is not written: the workload of
`spare` is deployed next to that of `main`. -/
theorem failed_service_two_deployed : ∃ s,
    Lts.run (step withImage) State.empty
        [.apply "main" "mirrors" "u1" {}, .apply "spare" "mirrors" "u2" {},
          .reconcile "main" { fails := fun c => c = .service }, .reconcile "spare" {}] = some s ∧
      Deployed s "main" ∧ Deployed s "spare" :=
  ⟨_, rfl, ⟨rfl, .inl rfl⟩, rfl, .inl rfl⟩

end KubeSync.ManagerController
