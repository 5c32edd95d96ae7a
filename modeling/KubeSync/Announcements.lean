import KubeSync.Lts
import KubeSync.ManagerFiles

/-! # The times of an announcement

`AnnouncementReconciler.Reconcile` (`internal/controller/announcement_controller.go`) as a system:
announcements are created, edited and deleted, and each of them is delivered to the reconciler any
number of times.

* An edit is an apply, by the manager (`createAnnouncement`) or by any other client.  The filter of
  `SetupWithManager` drops the update events of the reconciler's own writes; a controller that
  starts gets a create event for every announcement, and a reconcile that fails is tried again, so
  that a delivery needs no edit.
* The state has the clock of the last delivery, which does not go back, and the past of each
  announcement: when it was first reconciled, and when first after its latest edit.  No step reads
  the past.
* `Change` is what a step can do to one announcement and its past; `times_iff` says which deliveries
  keep the times right. -/

namespace KubeSync.Announcements

open Manager (News Announcement AnnouncementSpec AnnouncementStatus NewsBody Env applyObject
  createAnnouncement)

/-! ### `Reconcile` -/

inductive Result where
  | updated
  | ignored
  | failed
deriving DecidableEq, Repr

/-- The status that is written; the clock is read for each field. -/
def touch (env : Env) (st : AnnouncementStatus) : AnnouncementStatus where
  pubTime := if st.pubTime = 0 then env.now else st.pubTime
  editTime := env.now'

/-- `Reconcile`. -/
def reconcile (s : News) (env : Env) (id : String) : News × Result :=
  if env.getFails then (s, .failed)
  else
    match s.seen env.lag id with
    | none => (s, .ignored)
    | some (n, news) =>
        if env.writeFails then (s, .failed)
        else
          match s.modify id n fun a => { a with status := touch env news.status } with
          | some s' => (s', .updated)
          | none => (s, .failed)

/-! ### The system -/

/-- When an announcement was first reconciled, and when first after its latest edit. -/
structure Past where
  pub : Option ℤ := none
  edit : Option ℤ := none
deriving DecidableEq, Repr

structure State where
  news : News := .empty
  clock : ℤ
  past : String → Past := fun _ => {}

inductive Label where
  | apply (id : String) (spec : AnnouncementSpec)
  | create (id : String) (env : Env) (body : NewsBody)
  | delete (id : String)
  | deliver (id : String) (env : Env)

/-- The past behind a change of the object. -/
def edited (before after : Option Announcement) (p : Past) : Past :=
  match before, after with
  | some a, some b => if a.spec = b.spec then p else { p with edit := none }
  | _, _ => {}

/-- The past behind a reconcile that succeeds. -/
def noted (env : Env) (p : Past) : Past where
  pub := p.pub.or (some env.now)
  edit := p.edit.or (some env.now')

def State.put (s : State) (id : String) (news : News) : State :=
  { s with
    news
    past := Function.update s.past id (edited (s.news.value id) (news.value id) (s.past id)) }

/-- The clock does not go back. -/
def Later (s : State) (env : Env) : Prop := s.clock ≤ env.now ∧ env.now ≤ env.now'

instance (s : State) (env : Env) : Decidable (Later s env) := inferInstanceAs (Decidable (_ ∧ _))

def State.deliver (s : State) (id : String) (env : Env) : State :=
  match reconcile s.news env id with
  | (news, .updated) =>
      { news, clock := env.now', past := Function.update s.past id (noted env (s.past id)) }
  | (news, _) => { s with news, clock := env.now' }

def step (s : State) : Label → Option State
  | .apply id spec =>
      some (s.put id (applyObject s.news id { spec } fun a => { a with spec }))
  | .create id env body => some (s.put id (createAnnouncement s.news env id body).store)
  | .delete id => some (s.put id (s.news.remove id))
  | .deliver id env => if Later s env then some (s.deliver id env) else none

theorem step_deliver (s : State) (id : String) (env : Env) :
    step s (.deliver id env) = if Later s env then some (s.deliver id env) else none := rfl

/-! ### What should hold -/

/-- The times of one announcement with its past. -/
structure Right (a : Announcement) (p : Past) : Prop where
  pub : ∀ t, p.pub = some t → a.status.pubTime = t
  order : a.status.pubTime ≤ a.status.editTime
  edit : ∀ t, p.edit = some t → a.status.editTime = t

def TimesRight (s : State) : Prop :=
  ∀ id a, s.news.value id = some a → Right a (s.past id)

/-- The delivery of an announcement that was not edited since it was reconciled changes nothing. -/
def Unchanged (s : State) : Label → Prop
  | .deliver id env => Later s env → (s.past id).edit ≠ none →
      (reconcile s.news env id).1.value id = s.news.value id
  | _ => True

/-- The delivery succeeds for the announcement `a`: no call fails, and the cache is not behind. -/
def Succeeds (s : State) (id : String) (env : Env) (a : Announcement) : Prop :=
  Later s env ∧ env.getFails = false ∧ env.writeFails = false ∧ env.lag = 0 ∧
    s.news.value id = some a

/-- A delivery that succeeds is the first one after the creation or the latest edit, or it falls
into the second that is stored; and the first one of all was not at the time zero. -/
def Settled (s : State) : Label → Prop
  | .deliver id env => ∀ a, Succeeds s id env a →
      ((s.past id).edit = none ∨ a.status.editTime = env.now') ∧
        ((s.past id).pub = none ∨ a.status.pubTime ≠ 0 ∨ env.now = 0)
  | _ => True

variable {s s' : State} {l : Label} {id : String} {env : Env} {a : Announcement} {p : Past}

/-! ### One step -/

/-- A reconcile writes the touched status, or it leaves the store alone. -/
theorem reconcile_cases (news : News) (env : Env) (id : String) :
    (∃ a, (env.getFails = false ∧ env.writeFails = false ∧ env.lag = 0 ∧ news.value id = some a) ∧
        reconcile news env id =
          (news.write id { a with status := touch env a.status }, .updated)) ∨
      ((reconcile news env id).1 = news ∧ (reconcile news env id).2 ≠ .updated ∧
        ∀ a, ¬ (env.getFails = false ∧ env.writeFails = false ∧ env.lag = 0 ∧
          news.value id = some a)) := by
  unfold reconcile
  cases hget : env.getFails with
  | true => simp
  | false =>
      cases hseen : news.seen env.lag id with
      | none =>
          refine .inr ⟨rfl, nofun, fun a ha => ?_⟩
          obtain ⟨-, -, hlag, hvalue⟩ := ha
          rw [hlag] at hseen
          unfold Versioned.Store.value Versioned.Store.current at hvalue
          rw [hseen] at hvalue
          cases hvalue
      | some c =>
          obtain ⟨n, a⟩ := c
          cases hwrite : env.writeFails with
          | true => simp
          | false =>
              simp only [Bool.false_eq_true, if_false]
              cases hm : news.modify id n fun b => { b with status := touch env a.status } with
              | some s' =>
                  obtain ⟨w, hcurrent, -⟩ := Versioned.Store.modify_eq_some.mp hm
                  obtain ⟨hvalue, rfl⟩ := Versioned.Store.modify_seen hseen hm
                  exact .inl ⟨a, ⟨trivial, trivial, Versioned.Store.lag_eq_zero hseen hcurrent,
                    hvalue⟩, rfl⟩
              | none =>
                  refine .inr ⟨rfl, nofun, fun b hb => ?_⟩
                  obtain ⟨-, -, hlag, -⟩ := hb
                  rw [hlag] at hseen
                  have hsome := (Versioned.Store.modify_eq_some (s := news) (k := id) (n := n)
                    (f := fun b => { b with status := touch env a.status })).mpr ⟨a, hseen, rfl⟩
                  cases hsome.symm.trans hm

/-- What a step can do to one announcement and its past. -/
inductive Change (s : State) (l : Label) (id : String) : Option Announcement → Past → Prop where
  | same : Change s l id (s.news.value id) (s.past id)
  | created (spec : AnnouncementSpec) : Change s l id (some { spec }) {}
  | edited {a : Announcement} (spec : AnnouncementSpec) (h : s.news.value id = some a) :
      Change s l id (some { a with spec }) { s.past id with edit := none }
  | deleted : Change s l id none {}
  | reconciled {env : Env} {a : Announcement} (hl : l = .deliver id env)
      (h : Succeeds s id env a) :
      Change s l id (some { a with status := touch env a.status }) (noted env (s.past id))

/-- A step that puts another store does so for one announcement. -/
theorem change_put {news : News} (key : String) (hne : ∀ k, k ≠ key → news.value k = s.news.value k)
    (h : Change s l key (news.value key)
      (edited (s.news.value key) (news.value key) (s.past key))) (id : String) :
    Change s l id ((s.put key news).news.value id) ((s.put key news).past id) := by
  unfold State.put
  by_cases hid : id = key
  · subst hid
    dsimp only
    rw [Function.update_self]
    exact h
  · dsimp only
    rw [hne id hid, Function.update_of_ne hid]
    exact .same

/-- An apply creates the announcement or changes its spec. -/
theorem change_apply (key : String) (spec : AnnouncementSpec) (id : String) :
    Change s l id
      ((s.put key (applyObject s.news key { spec } fun a => { a with spec })).news.value id)
      ((s.put key (applyObject s.news key { spec } fun a => { a with spec })).past id) := by
  unfold applyObject
  cases hv : s.news.value key with
  | none =>
      refine change_put key (fun k hk => s.news.value_write_of_ne _ hk) ?_ id
      rw [hv, Versioned.Store.value_write_self]
      exact .created spec
  | some a =>
      refine change_put key (fun k hk => s.news.value_write_of_ne _ hk) ?_ id
      rw [hv, Versioned.Store.value_write_self]
      by_cases hspec : a.spec = spec
      · subst hspec
        have hpast : edited (some a) (some { a with spec := a.spec }) (s.past key) = s.past key :=
          if_pos rfl
        change Change s l key (some a) (edited (some a) (some { a with spec := a.spec }) _)
        rw [hpast, ← hv]
        exact .same
      · unfold edited
        dsimp only
        rw [if_neg hspec]
        exact .edited spec hv

/-- A store that is put back. -/
theorem change_refused (key id : String) :
    Change s l id ((s.put key s.news).news.value id) ((s.put key s.news).past id) := by
  refine change_put key (fun k hk => rfl) ?_ id
  cases hv : s.news.value key with
  | none => exact .deleted
  | some a =>
      unfold edited
      dsimp only
      rw [if_pos rfl, ← hv]
      exact .same

theorem change_delete (key id : String) :
    Change s l id ((s.put key (s.news.remove key)).news.value id)
      ((s.put key (s.news.remove key)).past id) := by
  refine change_put key (fun k hk => s.news.value_remove_of_ne hk) ?_ id
  have hnone : (s.news.remove key).value key = none := Versioned.Store.value_push_self _ _ _
  rw [hnone]
  cases s.news.value key with
  | none => exact .deleted
  | some a => exact .deleted

/-- A delivery that succeeds. -/
theorem deliver_of_succeeds (h : Succeeds s id env a) :
    (s.deliver id env).news = s.news.write id { a with status := touch env a.status } ∧
      (s.deliver id env).past = Function.update s.past id (noted env (s.past id)) := by
  obtain ⟨-, hs⟩ := h
  unfold State.deliver
  rcases reconcile_cases s.news env id with ⟨b, hb, heq⟩ | ⟨-, -, hno⟩
  · obtain rfl : b = a := Option.some.inj (hb.2.2.2.symm.trans hs.2.2.2)
    rw [heq]
    exact ⟨rfl, rfl⟩
  · exact absurd hs (hno a)

theorem change_deliver (key : String) (hl : Later s env) (id : String) :
    Change s (.deliver key env) id ((s.deliver key env).news.value id)
      ((s.deliver key env).past id) := by
  rcases reconcile_cases s.news env key with ⟨a, ha, -⟩ | ⟨hstore, hresult, -⟩
  · obtain ⟨hnews, hpast⟩ := deliver_of_succeeds ⟨hl, ha⟩
    rw [hnews, hpast]
    by_cases hid : id = key
    · subst hid
      rw [Versioned.Store.value_write_self, Function.update_self]
      exact .reconciled rfl ⟨hl, ha⟩
    · rw [s.news.value_write_of_ne _ hid, Function.update_of_ne hid]
      exact .same
  · have hdeliver : s.deliver key env = { s with clock := env.now' } := by
      unfold State.deliver
      generalize reconcile s.news env key = r at hstore hresult
      obtain ⟨news, result⟩ := r
      dsimp only at hstore hresult
      subst hstore
      cases result with
      | updated => exact absurd rfl hresult
      | ignored => rfl
      | failed => rfl
    rw [hdeliver]
    exact .same

theorem clock_deliver (s : State) (id : String) (env : Env) :
    (s.deliver id env).clock = env.now' := by
  unfold State.deliver
  split <;> rfl

/-- Every step changes each announcement in one of these ways. -/
theorem step_change (h : step s l = some s') (id : String) :
    Change s l id (s'.news.value id) (s'.past id) := by
  cases l with
  | apply key spec =>
      obtain rfl := Option.some.inj h
      exact change_apply key spec id
  | create key env body =>
      obtain rfl := Option.some.inj h
      unfold createAnnouncement
      dsimp only
      split
      · exact change_refused key id
      · exact change_apply key _ id
  | delete key =>
      obtain rfl := Option.some.inj h
      exact change_delete key id
  | deliver key env =>
      rw [step_deliver, Option.ite_none_right_eq_some] at h
      obtain ⟨hl, h⟩ := h
      obtain rfl := Option.some.inj h
      exact change_deliver key hl id

theorem clock_le_step (h : step s l = some s') : s.clock ≤ s'.clock := by
  cases l with
  | apply | create | delete =>
      obtain rfl := Option.some.inj h
      exact Int.le_refl _
  | deliver key env =>
      rw [step_deliver, Option.ite_none_right_eq_some] at h
      obtain ⟨⟨hclock, hnow⟩, h⟩ := h
      obtain rfl := Option.some.inj h
      rw [clock_deliver]
      exact Int.le_trans hclock hnow

/-! ### Whole runs -/

/-- An announcement that was never reconciled has no times, and the time of its publication is not
in the future. -/
structure Sound (clock : ℤ) (a : Announcement) (p : Past) : Prop where
  fresh : p.pub = none → a.status = {}
  unedited : p.pub = none → p.edit = none
  known : p.pub ≠ none → a.status.pubTime ≤ clock

def Inv (s : State) : Prop := ∀ id a, s.news.value id = some a → Sound s.clock a (s.past id)

theorem pub_noted_ne (env : Env) (p : Past) : (noted env p).pub ≠ none := by
  unfold noted
  cases p.pub <;> nofun

/-- The time of the publication is not behind the second reading of the clock. -/
theorem touch_le (hs : Sound s.clock a p) (hl : Later s env) :
    (touch env a.status).pubTime ≤ env.now' := by
  obtain ⟨hclock, hnow⟩ := hl
  unfold touch
  dsimp only
  split
  · exact hnow
  next hpub =>
    have hknown : a.status.pubTime ≤ s.clock := by
      refine hs.known fun hnone => hpub ?_
      rw [hs.fresh hnone]
    omega

theorem inv_step (hi : Inv s) (h : step s l = some s') : Inv s' := by
  have hclock := clock_le_step h
  intro id a ha
  have hc := step_change h id
  rw [ha] at hc
  generalize hp : s'.past id = p at hc
  generalize hv : some a = v at hc
  cases hc with
  | same =>
      have hsound := hi id a hv.symm
      exact ⟨hsound.fresh, hsound.unedited, fun hk => Int.le_trans (hsound.known hk) hclock⟩
  | created spec =>
      cases hv
      exact ⟨fun _ => rfl, fun _ => rfl, fun hk => absurd rfl hk⟩
  | edited spec hb =>
      cases hv
      have hsound := hi id _ hb
      exact ⟨hsound.fresh, fun _ => rfl, fun hk => Int.le_trans (hsound.known hk) hclock⟩
  | deleted => cases hv
  | reconciled hl hs =>
      cases hv
      refine ⟨fun hnone => absurd hnone (pub_noted_ne _ _),
        fun hnone => absurd hnone (pub_noted_ne _ _), fun _ => ?_⟩
      subst hl
      rw [step_deliver, if_pos hs.1] at h
      obtain rfl := Option.some.inj h
      rw [clock_deliver]
      exact touch_le (hi id _ hs.2.2.2.2) hs.1

/-- The time of the publication is kept, unless it looks as if it was never set. -/
theorem touch_pub_iff (hs : Sound s.clock a p) (hr : Right a p) :
    (∀ t, (noted env p).pub = some t → (touch env a.status).pubTime = t) ↔
      p.pub = none ∨ a.status.pubTime ≠ 0 ∨ env.now = 0 := by
  unfold noted touch
  cases hpub : p.pub with
  | none =>
      refine iff_of_true (fun t ht => ?_) (.inl rfl)
      obtain rfl := Option.some.inj ht
      rw [hs.fresh hpub]
      rfl
  | some t =>
      have ht := hr.pub t hpub
      dsimp only
      rw [Option.some_or, or_iff_right nofun]
      constructor
      · intro h
        have hkept := h t rfl
        rw [ht] at hkept ⊢
        by_cases hzero : t = 0
        · rw [if_pos hzero] at hkept
          exact .inr (hkept.trans hzero)
        · exact .inl hzero
      · intro h t' ht'
        obtain rfl := Option.some.inj ht'
        rw [ht] at h ⊢
        split
        next hzero => rw [h.resolve_left (not_not.mpr hzero), hzero]
        next => rfl

/-- The second reading of the clock is the time of the edit that was noted. -/
theorem touch_edit_iff (hr : Right a p) :
    (∀ t, (noted env p).edit = some t → (touch env a.status).editTime = t) ↔
      p.edit = none ∨ a.status.editTime = env.now' := by
  unfold noted touch
  cases hedit : p.edit with
  | none =>
      refine iff_of_true (fun t ht => ?_) (.inl rfl)
      exact Option.some.inj ht
  | some t =>
      rw [hr.edit t hedit, or_iff_right nofun]
      constructor
      · intro h
        exact (h t rfl).symm
      · intro h t' ht'
        obtain rfl := Option.some.inj ht'
        exact h.symm

/-- A delivery that succeeds leaves the times right exactly when it is settled. -/
theorem right_reconciled_iff (hs : Sound s.clock a p) (hr : Right a p) (hl : Later s env) :
    Right { a with status := touch env a.status } (noted env p) ↔
      (p.edit = none ∨ a.status.editTime = env.now') ∧
        (p.pub = none ∨ a.status.pubTime ≠ 0 ∨ env.now = 0) := by
  rw [← touch_edit_iff hr, ← touch_pub_iff hs hr]
  constructor
  · intro h
    exact ⟨h.edit, h.pub⟩
  · rintro ⟨hedit, hpub⟩
    exact ⟨hpub, touch_le hs hl, hedit⟩

/-- One step leaves the times right exactly when it is settled. -/
theorem timesRight_step (hi : Inv s) (hp : TimesRight s) (h : step s l = some s') :
    TimesRight s' ↔ Settled s l := by
  constructor
  · intro hright
    cases l with
    | apply | create | delete => trivial
    | deliver id env =>
        intro a ha
        rw [step_deliver, if_pos ha.1] at h
        obtain rfl := Option.some.inj h
        obtain ⟨hnews, hpast⟩ := deliver_of_succeeds ha
        have hone := hright id { a with status := touch env a.status } (by
          rw [hnews, Versioned.Store.value_write_self])
        rw [hpast, Function.update_self] at hone
        exact (right_reconciled_iff (hi id a ha.2.2.2.2) (hp id a ha.2.2.2.2) ha.1).mp hone
  · intro hset id a ha
    have hc := step_change h id
    rw [ha] at hc
    generalize s'.past id = p at hc
    generalize hv : some a = v at hc
    cases hc with
    | same => exact hp id a hv.symm
    | created spec =>
        cases hv
        exact ⟨nofun, Int.le_refl _, nofun⟩
    | edited spec hb =>
        cases hv
        have hright := hp id _ hb
        exact ⟨hright.pub, hright.order, nofun⟩
    | deleted => cases hv
    | reconciled hl hs =>
        cases hv
        subst hl
        have hvalue := hs.2.2.2.2
        exact (right_reconciled_iff (hi id _ hvalue) (hp id _ hvalue) hs.1).mpr (hset _ hs)

/-- A settled delivery of an announcement that was not edited changes nothing. -/
theorem unchanged_of_settled (hi : Inv s) (h : Settled s l) : Unchanged s l := by
  cases l with
  | apply | create | delete => trivial
  | deliver id env =>
      intro hl hedit
      rcases reconcile_cases s.news env id with ⟨a, ha, heq⟩ | ⟨hstore, -, -⟩
      · have hvalue := ha.2.2.2
        obtain ⟨hsame, hpub⟩ := h a ⟨hl, ha⟩
        have hknown : (s.past id).pub ≠ none := fun hnone =>
          hedit ((hi id a hvalue).unedited hnone)
        have htouch : touch env a.status = a.status := by
          have hpub' := hpub.resolve_left hknown
          unfold touch
          rw [← hsame.resolve_left hedit]
          split
          next hzero =>
            rw [hpub'.resolve_left (not_not.mpr hzero), ← hzero]
          next => rfl
        rw [heq, htouch, Versioned.Store.value_write_self, hvalue]
      · rw [hstore]

/-- A delivery before the clock is not enabled, and it does not succeed. -/
theorem settled_of_none {s : State} {l : Label} (h : step s l = none) : Settled s l := by
  cases l with
  | apply | create | delete => cases h
  | deliver id env =>
      intro a ha
      rw [step_deliver, if_pos ha.1] at h
      cases h

/-- **Times.**  In every run, the times of all announcements are right in every state, and no
delivery of an announcement that was not edited changes it, exactly when each delivery that succeeds
is the first one after an edit or falls into the second that is stored already. -/
theorem times_iff (clock : ℤ) (ls : List Label) :
    (Lts.Always step TimesRight { clock } ls ∧ Lts.Along step Unchanged { clock } ls) ↔
      Lts.Along step Settled { clock } ls := by
  have hinit : TimesRight { clock } := fun id a ha => by cases ha
  have hinv : Inv { clock } := fun id a ha => by cases ha
  have hiff : Lts.Always step TimesRight { clock } ls ↔
      TimesRight { clock } ∧ Lts.Along step Settled { clock } ls :=
    Lts.always_iff_along_of_enabled (fun l _ s s' hi h => inv_step hi h)
      (fun l _ s s' hi hp h => timesRight_step hi hp h)
      (fun l _ s h => settled_of_none h) hinv
  constructor
  · rintro ⟨halways, -⟩
    exact (hiff.mp halways).2
  · intro hset
    refine ⟨hiff.mpr ⟨hinit, hset⟩, ?_⟩
    exact hset.of_invariant (fun s l s' hi _ h => inv_step hi h)
      (fun s l hi hc => unchanged_of_settled hi hc) hinv

/-- An announcement is reconciled, and delivered again when the controller is started again. -/
def restart : List Label :=
  [.apply "welcome" { title := "Welcome" }, .deliver "welcome" { now := 100 },
    .deliver "welcome" { now := 200 }]

/-- The announcement was not edited, but the time of its edit is that of the restart. -/
theorem restart_edits : ∃ s, Lts.run step { clock := 0 } restart = some s ∧
    s.news.value "welcome" =
      some { spec := { title := "Welcome" }, status := { pubTime := 100, editTime := 200 } } ∧
    s.past "welcome" = { pub := some 100, edit := some 100 } ∧ ¬ TimesRight s := by
  refine ⟨_, rfl, by decide, by decide, fun h => ?_⟩
  have hright := h "welcome"
    { spec := { title := "Welcome" }, status := { pubTime := 100, editTime := 200 } } (by decide)
  have hedit := hright.edit 100 (by decide)
  revert hedit
  decide

end KubeSync.Announcements
