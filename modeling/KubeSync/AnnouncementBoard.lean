import KubeSync.Announcements
import KubeSync.FileListings
import Mathlib.Data.List.Dedup

/-! # The board of announcements

`listAnnouncement` of `manager/server.go` sorts the announcements by the time of their publication,
which the reconciler writes.  To a reader the answers are a board: an announcement is put at its end
when it is published, it is edited in its place, and it is taken off when it is deleted.

* `listAnnouncement`, `getAnnouncement` and `deleteAnnouncement` complete the handlers of
  `KubeSync.Manager` for announcements.
* `Post` is what can happen to the board, and `posts` says which of it a step of the system does.
* `Shows` ties a board to the store; each kind of post keeps it.
* `listing_board` : after every run the answer is the announcements that wait for their first
  reconcile, and behind them the board that the posts of the run have made. -/

namespace KubeSync.AnnouncementBoard

open Manager (News Announcement AnnouncementSpec AnnouncementStatus NewsBody Env Answer Response
  applyObject createAnnouncement getNews newsSpec returnErrJSON)
open SortSlice (mergeSlice)
open Announcements (State Later touch reconcile)

/-! ### The handlers -/

/-- `internal.AnnouncementInfo`. -/
structure AnnouncementInfo where
  id : String
  title : String
  author : String
  content : String
  status : AnnouncementStatus
deriving DecidableEq, Repr

def infoOf (id : String) (v : Announcement) : AnnouncementInfo where
  id
  title := v.spec.title
  author := v.spec.author
  content := v.spec.content
  status := v.status

def lessPubTime (a b : AnnouncementInfo) : Bool := a.status.pubTime < b.status.pubTime

/-- `listAnnouncement`; `items` is what `List` returns. -/
def listAnnouncement (sort : SortSlice) (items : Except String (List (String × Announcement))) :
    Except Response (List AnnouncementInfo) :=
  match items with
  | .error err => .error (returnErrJSON 500 ("failed to list announcements: " ++ err))
  | .ok items => .ok (sort.slice lessPubTime (items.map fun v => infoOf v.1 v.2))

/-- The text of the error that `GetAnnouncement` returns, which it has also written as a 500
response. -/
def getNewsErr (e : String) : String := "failed to get announcement: " ++ e

/-- `getAnnouncement`; an error is written by `GetAnnouncement` and by the handler. -/
def getAnnouncement (s : News) (env : Env) (id : String) :
    Except (List Response) AnnouncementInfo :=
  match getNews s env id with
  | none => .error [returnErrJSON 500 (getNewsErr env.err),
      returnErrJSON 500 ("failed to get announcement " ++ id ++ ": " ++ getNewsErr env.err)]
  | some news => .ok (infoOf id news)

def deleteAnnouncement (s : News) (env : Env) (id : String) : Answer News :=
  match getNews s env id with
  | none => ⟨s, [returnErrJSON 500 (getNewsErr env.err)]⟩
  | some _ =>
      -- `client.Delete` is refused for an object that is gone
      if env.writeFails ∨ s.value id = none then
        ⟨s, [returnErrJSON 500 ("failed to delete announcement: " ++ env.err)]⟩
      else ⟨s.remove id, [⟨200, .message "deleted"⟩]⟩

/-- The announcements of the store, in the order in which `List` returns them. -/
def itemsOf (s : News) (names : List String) : List (String × Announcement) :=
  names.filterMap fun name => (s.value name).map fun a => (name, a)

/-! ### The system -/

/-- The steps of the system: those of the reconciler and of other clients, and the manager's
`DELETE`. -/
inductive Label where
  | other (l : Announcements.Label)
  | remove (id : String) (env : Env)

def step (s : State) : Label → Option State
  | .other l => Announcements.step s l
  | .remove id env => some (s.put id (deleteAnnouncement s.news env id).store)

/-- The announcement that a step is about. -/
def Label.key : Label → String
  | .other (.apply id _) => id
  | .other (.create id _ _) => id
  | .other (.delete id) => id
  | .other (.deliver id _) => id
  | .remove id _ => id

/-- What can happen to the board. -/
inductive Post where
  | publish (info : AnnouncementInfo)
  | edit (id : String) (spec : AnnouncementSpec)
  | touch (id : String) (time : ℤ)
  | remove (id : String)
deriving DecidableEq, Repr

abbrev Board := List AnnouncementInfo

def AnnouncementInfo.edit (spec : AnnouncementSpec) (i : AnnouncementInfo) : AnnouncementInfo :=
  { i with title := spec.title, author := spec.author, content := spec.content }

def AnnouncementInfo.touch (time : ℤ) (i : AnnouncementInfo) : AnnouncementInfo :=
  { i with status.editTime := time }

/-- One entry is changed in its place. -/
def Board.modify (b : Board) (id : String) (f : AnnouncementInfo → AnnouncementInfo) : Board :=
  b.map fun i => if i.id = id then f i else i

def Board.post (b : Board) : Post → Board
  | .publish info => b ++ [info]
  | .edit id spec => b.modify id (AnnouncementInfo.edit spec)
  | .touch id time => b.modify id (AnnouncementInfo.touch time)
  | .remove id => b.filter fun i => i.id ≠ id

/-- What a delivery does: the first reconcile that succeeds publishes the announcement. -/
def delivered (s : State) (id : String) (env : Env) : List Post :=
  match (reconcile s.news env id).2, s.news.value id with
  | .updated, some a =>
      if a.status.pubTime = 0 then
        [.publish (infoOf id { a with status := Announcements.touch env a.status })]
      else [.touch id env.now']
  | _, _ => []

/-- What `DELETE` does; it is refused for an announcement that is gone. -/
def deleted (news : News) (env : Env) (id : String) : List Post :=
  if getNews news env id = none ∨ env.writeFails ∨ news.value id = none then [] else [.remove id]

/-- What a step does to the board. -/
def posts (s : State) : Label → List Post
  | .other (.apply id spec) => [.edit id spec]
  | .other (.create id env body) =>
      if env.writeFails then [] else [.edit id (newsSpec s.news env id body).1]
  | .other (.delete id) => [.remove id]
  | .other (.deliver id env) => delivered s id env
  | .remove id env => deleted s.news env id

/-- The board that the steps of a run have made. -/
def boardOf (s : State) (ls : List Label) : Board :=
  (Lts.collect step posts s ls).foldl Board.post []

/-- An announcement is published in a second in which none of those that are there was. -/
def Apart (s : State) : Label → Prop
  | .other (.deliver id env) =>
      ∀ info, .publish info ∈ delivered s id env →
        ∀ k a, s.news.value k = some a → a.status.pubTime ≠ env.now
  | _ => True

/-! ### The board and the store -/

/-- The announcement was reconciled. -/
def Published (a : Announcement) : Prop := a.status.pubTime ≠ 0

instance : DecidablePred Published := fun a => inferInstanceAs (Decidable (a.status.pubTime ≠ 0))

structure Shows (news : News) (clock : ℤ) (b : Board) : Prop where
  clock_nonneg : 0 ≤ clock
  times : ∀ id a, news.value id = some a → 0 ≤ a.status.pubTime ∧ a.status.pubTime ≤ clock
  mem : ∀ i, i ∈ b ↔ ∃ a, news.value i.id = some a ∧ Published a ∧ i = infoOf i.id a
  sorted : b.Pairwise fun i j => i.status.pubTime < j.status.pubTime

variable {s s' : State} {news news' : News} {clock clock' : ℤ} {b : Board} {id key : String}
  {env : Env} {a : Announcement}

theorem shows_empty (h : 0 ≤ clock) : Shows .empty clock [] := by
  refine ⟨h, nofun, fun i => iff_of_false List.not_mem_nil ?_, .nil⟩
  rintro ⟨a, ha, -⟩
  cases ha

/-- Time goes by. -/
theorem Shows.later (hs : Shows news clock b) (h : clock ≤ clock') : Shows news clock' b where
  clock_nonneg := Int.le_trans hs.clock_nonneg h
  times id a ha := ⟨(hs.times id a ha).1, Int.le_trans (hs.times id a ha).2 h⟩
  mem := hs.mem
  sorted := hs.sorted

theorem mem_modify {f : AnnouncementInfo → AnnouncementInfo} (hid : ∀ i, (f i).id = i.id)
    (i : AnnouncementInfo) :
    i ∈ b.modify key f ↔ (i.id ≠ key ∧ i ∈ b) ∨ (i.id = key ∧ ∃ j ∈ b, j.id = key ∧ f j = i) := by
  unfold Board.modify
  rw [List.mem_map]
  constructor
  · rintro ⟨j, hj, rfl⟩
    by_cases hkey : j.id = key
    · rw [if_pos hkey]
      exact .inr ⟨(hid j).trans hkey, j, hj, hkey, rfl⟩
    · rw [if_neg hkey]
      exact .inl ⟨hkey, hj⟩
  · rintro (⟨hkey, hi⟩ | ⟨-, j, hj, hkey, rfl⟩)
    · exact ⟨i, hi, if_neg hkey⟩
    · exact ⟨j, hj, if_pos hkey⟩

/-- A change of an announcement that keeps the time of its publication. -/
theorem Shows.modify (hs : Shows news clock b) {g : Announcement → Announcement}
    {f : AnnouncementInfo → AnnouncementInfo} (hne : ∀ k, k ≠ key → news'.value k = news.value k)
    (hkey : ∀ a', news'.value key = some a' →
      (∃ a, news.value key = some a ∧ a' = g a) ∨ (news.value key = none ∧ a'.status.pubTime = 0))
    (hsome : ∀ a, news.value key = some a → news'.value key = some (g a))
    (hinfo : ∀ a, infoOf key (g a) = f (infoOf key a))
    (hid : ∀ i, (f i).id = i.id) (hpub : ∀ i, (f i).status.pubTime = i.status.pubTime) :
    Shows news' clock (b.modify key f) := by
  have htime : ∀ a, (g a).status.pubTime = a.status.pubTime := fun a =>
    (congrArg (fun i => i.status.pubTime) (hinfo a)).trans (hpub _)
  refine ⟨hs.clock_nonneg, fun id a ha => ?_, fun i => ?_, ?_⟩
  · by_cases hk : id = key
    · subst hk
      rcases hkey a ha with ⟨a₀, ha₀, rfl⟩ | ⟨-, hzero⟩
      · rw [htime]
        exact hs.times id a₀ ha₀
      · rw [hzero]
        exact ⟨Int.le_refl 0, hs.clock_nonneg⟩
    · exact hs.times id a ((hne id hk).symm.trans ha)
  · rw [mem_modify hid]
    constructor
    · rintro (⟨hk, hi⟩ | ⟨-, j, hj, hk, rfl⟩)
      · rw [hne i.id hk]
        exact (hs.mem i).mp hi
      · obtain ⟨a, ha, hp, hj⟩ := (hs.mem j).mp hj
        rw [hk] at ha hj
        rw [hid, hk]
        exact ⟨g a, hsome a ha, fun h => hp ((htime a).symm.trans h), by rw [hj, hinfo]⟩
    · rintro ⟨a, ha, hp, hi⟩
      by_cases hk : i.id = key
      · rw [hk] at ha hi
        rcases hkey a ha with ⟨a₀, ha₀, rfl⟩ | ⟨-, hzero⟩
        · refine .inr ⟨hk, infoOf key a₀, (hs.mem _).mpr ⟨a₀, ha₀, ?_, rfl⟩, rfl, ?_⟩
          · exact fun h => hp ((htime a₀).trans h)
          · rw [hi, hinfo]
        · exact absurd hzero hp
      · exact .inl ⟨hk, (hs.mem i).mpr ⟨a, (hne i.id hk).symm.trans ha, hp, hi⟩⟩
  · have htimes : ∀ i, (if i.id = key then f i else i).status.pubTime = i.status.pubTime := by
      intro i
      split
      · exact hpub i
      · rfl
    refine List.pairwise_map.mpr (hs.sorted.imp fun h => ?_)
    rw [htimes, htimes]
    exact h

/-- An apply edits the entry of the announcement, if it has one. -/
theorem Shows.apply (hs : Shows news clock b) (id : String) (spec : AnnouncementSpec) :
    Shows (applyObject news id { spec } fun a => { a with spec }) clock
      (b.post (.edit id spec)) := by
  unfold applyObject
  cases hv : news.value id with
  | none =>
      refine hs.modify (g := fun a => { a with spec }) (fun k hk => news.value_write_of_ne _ hk)
        (fun a' ha' => .inr ⟨hv, ?_⟩) (fun a ha => ?_) (fun _ => rfl) (fun _ => rfl) fun _ => rfl
      · rw [Versioned.Store.value_write_self] at ha'
        obtain rfl := Option.some.inj ha'
        rfl
      · cases hv.symm.trans ha
  | some a₀ =>
      refine hs.modify (g := fun a => { a with spec }) (fun k hk => news.value_write_of_ne _ hk)
        (fun a' ha' => .inl ⟨a₀, hv, ?_⟩) (fun a ha => ?_) (fun _ => rfl) (fun _ => rfl)
        fun _ => rfl
      · rw [Versioned.Store.value_write_self] at ha'
        exact (Option.some.inj ha').symm
      · obtain rfl := Option.some.inj (hv.symm.trans ha)
        exact Versioned.Store.value_write_self _ _ _

theorem Shows.remove (hs : Shows news clock b) (id : String) :
    Shows (news.remove id) clock (b.post (.remove id)) := by
  have hself : (news.remove id).value id = none := Versioned.Store.value_push_self _ _ _
  refine ⟨hs.clock_nonneg, fun k a ha => ?_, fun i => ?_, hs.sorted.filter _⟩
  · by_cases hk : k = id
    · subst hk
      cases hself.symm.trans ha
    · exact hs.times k a ((news.value_remove_of_ne hk).symm.trans ha)
  · unfold Board.post
    rw [List.mem_filter, decide_eq_true_iff, hs.mem]
    constructor
    · rintro ⟨hi, hne⟩
      rw [news.value_remove_of_ne hne]
      exact hi
    · rintro ⟨a, ha, hi⟩
      have hne : i.id ≠ id := by
        intro h
        rw [h, hself] at ha
        cases ha
      exact ⟨⟨a, (news.value_remove_of_ne hne).symm.trans ha, hi⟩, hne⟩

/-- The first reconcile of an announcement puts it at the end. -/
theorem Shows.publish (hs : Shows news clock b) {st : AnnouncementStatus}
    (ha : news.value id = some a) (hzero : a.status.pubTime = 0)
    (hlt : ∀ k a, news.value k = some a → a.status.pubTime < st.pubTime)
    (hclock : clock ≤ st.pubTime) (hle : st.pubTime ≤ clock') :
    Shows (news.write id { a with status := st }) clock'
      (b.post (.publish (infoOf id { a with status := st }))) := by
  have hpos := hlt id a ha
  rw [hzero] at hpos
  have hself := Versioned.Store.value_write_self news id { a with status := st }
  have hold : ∀ i ∈ b, i.id ≠ id := by
    rintro i hi rfl
    obtain ⟨a', ha', hp, -⟩ := (hs.mem i).mp hi
    obtain rfl := Option.some.inj (ha.symm.trans ha')
    exact hp hzero
  refine ⟨by omega, fun k a' ha' => ?_, fun i => ?_, ?_⟩
  · by_cases hk : k = id
    · subst hk
      obtain rfl := Option.some.inj (hself.symm.trans ha')
      exact ⟨by dsimp only; omega, hle⟩
    · have htimes := hs.times k a' ((news.value_write_of_ne _ hk).symm.trans ha')
      omega
  · unfold Board.post
    rw [List.mem_append, List.mem_singleton]
    constructor
    · rintro (hi | rfl)
      · rw [news.value_write_of_ne _ (hold i hi)]
        exact (hs.mem i).mp hi
      · refine ⟨_, hself, ?_, rfl⟩
        change st.pubTime ≠ 0
        omega
    · rintro ⟨a', ha', hp, hi⟩
      by_cases hk : i.id = id
      · rw [hk] at ha' hi
        obtain rfl := Option.some.inj (hself.symm.trans ha')
        exact .inr hi
      · exact .inl ((hs.mem i).mpr ⟨a', (news.value_write_of_ne _ hk).symm.trans ha', hp, hi⟩)
  · refine List.pairwise_append.mpr ⟨hs.sorted, List.pairwise_singleton _ _, fun i hi j hj => ?_⟩
    obtain rfl := List.mem_singleton.mp hj
    obtain ⟨a', ha', -, heq⟩ := (hs.mem i).mp hi
    have htime : i.status.pubTime = a'.status.pubTime := by rw [heq]; rfl
    change i.status.pubTime < st.pubTime
    rw [htime]
    exact hlt i.id a' ha'

/-- A later reconcile changes the time of the edit. -/
theorem Shows.touched (hs : Shows news clock b) (ha : news.value id = some a)
    (hp : a.status.pubTime ≠ 0) :
    Shows (news.write id { a with status := touch env a.status }) clock
      (b.post (.touch id env.now')) := by
  have hself := Versioned.Store.value_write_self news id { a with status := touch env a.status }
  have htouch : Announcements.touch env a.status = { a.status with editTime := env.now' } := by
    unfold Announcements.touch
    rw [if_neg hp]
  rw [htouch] at hself ⊢
  refine hs.modify (g := fun a => { a with status.editTime := env.now' })
    (fun k hk => news.value_write_of_ne _ hk) (fun a' ha' => .inl ⟨a, ha, ?_⟩) (fun a' ha' => ?_)
    (fun _ => rfl) (fun _ => rfl) fun _ => rfl
  · exact (Option.some.inj (hself.symm.trans ha')).symm
  · obtain rfl := Option.some.inj (ha.symm.trans ha')
    exact hself

/-! ### Steps and runs -/

/-- A delivery writes the touched status, or it leaves the store and the board alone. -/
theorem deliver_cases (id : String) (hl : Later s env) :
    (∃ a, s.news.value id = some a ∧
        (s.deliver id env).news = s.news.write id { a with status := touch env a.status } ∧
        delivered s id env =
          if a.status.pubTime = 0 then
            [.publish (infoOf id { a with status := touch env a.status })]
          else [.touch id env.now']) ∨
      ((s.deliver id env).news = s.news ∧ delivered s id env = []) := by
  rcases Announcements.reconcile_cases s.news env id with ⟨a, ha, heq⟩ | ⟨hstore, hresult, -⟩
  · have hvalue := ha.2.2.2
    refine .inl ⟨a, hvalue, (Announcements.deliver_of_succeeds ⟨hl, ha⟩).1, ?_⟩
    unfold delivered
    rw [heq, hvalue]
  · refine .inr ⟨?_, ?_⟩
    · unfold State.deliver
      generalize reconcile s.news env id = r at hstore hresult
      obtain ⟨news, result⟩ := r
      cases result with
      | updated => exact absurd rfl hresult
      | ignored => exact hstore
      | failed => exact hstore
    · unfold delivered
      split
      next h _ => exact absurd h hresult
      next => rfl

theorem shows_deliver (hs : Shows s.news s.clock b) (hl : Later s env)
    (hapart : Apart s (.other (.deliver id env))) :
    Shows (s.deliver id env).news (s.deliver id env).clock
      ((delivered s id env).foldl Board.post b) := by
  obtain ⟨hclock, hnow⟩ := hl
  rw [Announcements.clock_deliver]
  rcases deliver_cases id ⟨hclock, hnow⟩ with ⟨a, ha, hnews, hposts⟩ | ⟨hnews, hposts⟩
  · rw [hnews, hposts]
    by_cases hzero : a.status.pubTime = 0
    · have htouch : (touch env a.status).pubTime = env.now := if_pos hzero
      rw [if_pos hzero] at hposts ⊢
      have hother := hapart _ (hposts ▸ List.mem_singleton_self _)
      refine hs.publish ha hzero (fun k a' ha' => ?_) ?_ ?_
      · have hle := (hs.times k a' ha').2
        have hne := hother k a' ha'
        rw [htouch]
        omega
      · rw [htouch]
        exact hclock
      · rw [htouch]
        exact hnow
    · rw [if_neg hzero]
      exact (hs.touched ha hzero).later (Int.le_trans hclock hnow)
  · rw [hnews, hposts]
    exact hs.later (Int.le_trans hclock hnow)

theorem shows_delete (hs : Shows news clock b) (id : String) (env : Env) :
    Shows (deleteAnnouncement news env id).store clock
      ((deleted news env id).foldl Board.post b) := by
  unfold deleteAnnouncement deleted
  cases hget : getNews news env id with
  | none => exact hs
  | some a =>
      by_cases hrefused : env.writeFails ∨ news.value id = none
      · dsimp only
        rw [if_pos hrefused, if_pos (.inr hrefused)]
        exact hs
      · dsimp only
        rw [if_neg hrefused, if_neg fun h => hrefused (h.resolve_left (Option.some_ne_none a))]
        exact hs.remove id

theorem shows_step {l : Label} (hs : Shows s.news s.clock b) (hapart : Apart s l)
    (h : step s l = some s') : Shows s'.news s'.clock ((posts s l).foldl Board.post b) := by
  cases l with
  | remove id env =>
      obtain rfl := Option.some.inj h
      exact shows_delete hs id env
  | other l =>
      cases l with
      | apply id spec =>
          obtain rfl := Option.some.inj h
          exact hs.apply id spec
      | create id env body =>
          obtain rfl := Option.some.inj h
          unfold posts createAnnouncement
          dsimp only
          split
          · exact hs
          · exact hs.apply id _
      | delete id =>
          obtain rfl := Option.some.inj h
          exact hs.remove id
      | deliver id env =>
          have hstep : Announcements.step s (.deliver id env) = some s' := h
          rw [Announcements.step_deliver, Option.ite_none_right_eq_some] at hstep
          obtain ⟨hl, hs'⟩ := hstep
          obtain rfl := Option.some.inj hs'
          exact shows_deliver hs hl hapart

theorem value_applyObject_of_ne (news : News) {k : String} (hk : k ≠ id) (new : Announcement)
    (set : Announcement → Announcement) :
    (applyObject news id new set).value k = news.value k := by
  unfold applyObject
  split
  · exact news.value_write_of_ne _ hk
  · exact news.value_write_of_ne _ hk

theorem value_step {l : Label} (h : step s l = some s') {k : String} (hk : ¬ l.key = k) :
    s'.news.value k = s.news.value k := by
  cases l with
  | remove id env =>
      obtain rfl := Option.some.inj h
      change (deleteAnnouncement s.news env id).store.value k = _
      unfold deleteAnnouncement
      split
      · rfl
      · split
        · rfl
        · exact s.news.value_remove_of_ne (Ne.symm hk)
  | other l =>
      cases l with
      | apply id spec =>
          obtain rfl := Option.some.inj h
          exact value_applyObject_of_ne s.news (Ne.symm hk) _ _
      | create id env body =>
          obtain rfl := Option.some.inj h
          change (createAnnouncement s.news env id body).store.value k = _
          unfold createAnnouncement
          dsimp only
          split
          · rfl
          · exact value_applyObject_of_ne s.news (Ne.symm hk) _ _
      | delete id =>
          obtain rfl := Option.some.inj h
          exact s.news.value_remove_of_ne (Ne.symm hk)
      | deliver id env =>
          have hstep : Announcements.step s (.deliver id env) = some s' := h
          rw [Announcements.step_deliver, Option.ite_none_right_eq_some] at hstep
          obtain ⟨hl, hs'⟩ := hstep
          obtain rfl := Option.some.inj hs'
          rcases deliver_cases id hl with ⟨a, -, hnews, -⟩ | ⟨hnews, -⟩
          · rw [hnews]
            exact s.news.value_write_of_ne _ (Ne.symm hk)
          · rw [hnews]

/-- An announcement that is there after a run is one that the run is about. -/
theorem mem_keys_of_value {ls : List Label} (h : Lts.run step { clock } ls = some s)
    (hid : s.news.value id ≠ none) : id ∈ (ls.map Label.key).dedup := by
  rw [List.mem_dedup]
  by_contra hnot
  have hframe := @Lts.run_frame _ _ step _ (fun s => s.news.value id) (fun l => l.key = id)
    (fun s l s' hstep hk => value_step hstep hk) _ _ ls h
    (fun l hl hk => hnot (List.mem_map.mpr ⟨l, hl, hk⟩))
  exact hid hframe

theorem shows_run {ls : List Label} (hs : Shows s.news s.clock b)
    (hapart : Lts.Along step Apart s ls) (h : Lts.run step s ls = some s') :
    Shows s'.news s'.clock ((Lts.collect step posts s ls).foldl Board.post b) := by
  induction ls generalizing s b with
  | nil =>
      obtain rfl := Option.some.inj h
      exact hs
  | cons l ls ih =>
      obtain ⟨s₁, hstep, hrest⟩ := Lts.run_cons.mp h
      rw [Lts.collect_cons hstep, List.foldl_append]
      exact ih (shows_step hs hapart.1 hstep) (hapart.2 s₁ hstep) hrest

/-! ### The listing -/

/-- A list in the order of its times starts with the entries that have none. -/
theorem split_drafts {l : List AnnouncementInfo} (hpos : ∀ i ∈ l, 0 ≤ i.status.pubTime)
    (hl : l.Pairwise fun i j => lessPubTime j i = false) :
    l = l.filter (fun i => i.status.pubTime = 0) ++ l.filter fun i => i.status.pubTime ≠ 0 := by
  induction l with
  | nil => rfl
  | cons i l ih =>
      obtain ⟨hi, hl⟩ := List.pairwise_cons.mp hl
      by_cases hzero : i.status.pubTime = 0
      · have hrest := ih (fun j hj => hpos j (List.mem_cons_of_mem i hj)) hl
        simp only [hzero, List.filter_cons_of_pos, decide_true, ne_eq, not_true_eq_false,
          decide_false, Bool.false_eq_true, not_false_eq_true, List.filter_cons_of_neg,
          List.cons_append]
        exact congrArg (i :: ·) hrest
      · -- every other entry has a time as well
        have hall : ∀ j ∈ i :: l, j.status.pubTime ≠ 0 := by
          intro j hj
          rcases List.mem_cons.mp hj with rfl | hj
          · exact hzero
          · have hle := decide_eq_false_iff_not.mp (hi j hj)
            have hi₀ := hpos i List.mem_cons_self
            omega
        rw [List.filter_eq_nil_iff.mpr fun j hj => by simpa using hall j hj,
          List.filter_eq_self.mpr fun j hj => decide_eq_true (hall j hj), List.nil_append]

/-- The entries of the store. -/
def infos (news : News) (names : List String) : List AnnouncementInfo :=
  (itemsOf news names).map fun v => infoOf v.1 v.2

theorem mem_infos {names : List String} (hall : ∀ id, news.value id ≠ none → id ∈ names)
    (i : AnnouncementInfo) :
    i ∈ infos news names ↔ ∃ a, news.value i.id = some a ∧ i = infoOf i.id a := by
  unfold infos itemsOf
  simp only [List.mem_map, List.mem_filterMap, Option.map_eq_some_iff]
  constructor
  · rintro ⟨v, ⟨name, -, a, ha, rfl⟩, rfl⟩
    exact ⟨a, ha, rfl⟩
  · rintro ⟨a, ha, hi⟩
    exact ⟨(i.id, a), ⟨i.id, hall i.id (by rw [ha]; nofun), a, ha, rfl⟩, hi.symm⟩

theorem nodup_infos {names : List String} (h : names.Nodup) : (infos news names).Nodup := by
  have hids : ((infos news names).map AnnouncementInfo.id).Sublist names := by
    unfold infos itemsOf
    clear h
    induction names with
    | nil => exact List.Sublist.refl _
    | cons name names ih =>
        cases ha : news.value name with
        | none =>
            rw [List.filterMap_cons_none (by rw [ha]; rfl)]
            exact ih.cons _
        | some a =>
            rw [List.filterMap_cons_some (by rw [ha]; rfl)]
            exact ih.cons_cons _
  exact (hids.nodup h).of_map _

/-- The entries that have a time are those of the board. -/
theorem Shows.perm (hs : Shows news clock b) {names : List String} (hnodup : names.Nodup)
    (hall : ∀ id, news.value id ≠ none → id ∈ names) :
    ((infos news names).filter fun i => i.status.pubTime ≠ 0).Perm b := by
  have hnd : b.Nodup := hs.sorted.imp fun hlt heq => by
    rw [heq] at hlt
    exact Int.lt_irrefl _ hlt
  refine (List.perm_ext_iff_of_nodup ((nodup_infos hnodup).filter _) hnd).mpr fun i => ?_
  rw [List.mem_filter, mem_infos hall, hs.mem, decide_eq_true_iff]
  constructor
  · rintro ⟨⟨a, ha, hi⟩, hp⟩
    rw [hi] at hp
    exact ⟨a, ha, hp, hi⟩
  · rintro ⟨a, ha, hp, hi⟩
    refine ⟨⟨a, ha, hi⟩, ?_⟩
    rw [hi]
    exact hp

theorem Shows.eq_of_pubTime (hs : Shows news clock b) {i j : AnnouncementInfo} (hi : i ∈ b)
    (hj : j ∈ b) (h : i.status.pubTime = j.status.pubTime) : i = j := by
  have hnodup : (b.map fun i => i.status.pubTime).Nodup :=
    List.pairwise_map.mpr (hs.sorted.imp fun hlt => Int.ne_of_lt hlt)
  exact List.inj_on_of_nodup_map hnodup hi hj h

/-- The sorted entries are the drafts and the board. -/
theorem Shows.slice (hs : Shows news clock b) (sort : SortSlice) {names : List String}
    (hnodup : names.Nodup) (hall : ∀ id, news.value id ≠ none → id ∈ names) :
    ∃ drafts, sort.slice lessPubTime (infos news names) = drafts ++ b ∧
      ∀ i ∈ drafts, i.status.pubTime = 0 := by
  have hperm := sort.perm lessPubTime (infos news names)
  have hsorted := sort.sorted lessPubTime (infos news names)
    (fun i j k hij hjk => by
      unfold lessPubTime at hij hjk ⊢
      rw [decide_eq_false_iff_not] at hij hjk ⊢
      omega)
    fun i j => by
      unfold lessPubTime
      rw [decide_eq_false_iff_not, decide_eq_false_iff_not]
      omega
  have hpos : ∀ i ∈ sort.slice lessPubTime (infos news names), 0 ≤ i.status.pubTime := by
    intro i hi
    obtain ⟨a, ha, heq⟩ := (mem_infos hall i).mp (hperm.mem_iff.mp hi)
    rw [heq]
    exact (hs.times i.id a ha).1
  have hboard : ((sort.slice lessPubTime (infos news names)).filter
      fun i => i.status.pubTime ≠ 0).Perm b :=
    (hperm.filter _).trans (hs.perm hnodup hall)
  have heq := List.Perm.eq_of_pairwise
    (fun i j hi hj hij hji => hs.eq_of_pubTime (hboard.mem_iff.mp hi) hj (by
      have hle := decide_eq_false_iff_not.mp hij
      have hge := decide_eq_false_iff_not.mp hji
      omega))
    (hsorted.filter _)
    (hs.sorted.imp fun h => decide_eq_false_iff_not.mpr (Int.not_lt.mpr (Int.le_of_lt h))) hboard
  exact ⟨_, (split_drafts hpos hsorted).trans (congrArg _ heq),
    fun i hi => of_decide_eq_true (List.mem_filter.mp hi).2⟩

/-- A `GET` that does not fail answers with the entry of the store. -/
theorem getAnnouncement_ok_iff (hget : env.getFails = false) (hlag : env.lag = 0)
    (i : AnnouncementInfo) :
    getAnnouncement news env i.id = .ok i ↔
      ∃ a, news.value i.id = some a ∧ i = infoOf i.id a := by
  have hnews : getNews news env i.id = news.value i.id := by
    unfold getNews
    rw [hget, hlag]
    rfl
  unfold getAnnouncement
  rw [hnews]
  cases news.value i.id with
  | none => exact iff_of_false nofun fun ⟨a, ha, _⟩ => nomatch ha
  | some a =>
      constructor
      · intro h
        exact ⟨a, rfl, (Except.ok.inj h).symm⟩
      · rintro ⟨a', ha', hi⟩
        obtain rfl := Option.some.inj ha'
        exact congrArg Except.ok hi.symm

/-- **Board.**  After every run in which each announcement is published in another second than those
that are there, the answer of `listAnnouncement` is the announcements that were not reconciled yet
and behind them the board: what was published, in that order, edited in its place and without what
was deleted.  Its entries are those that `getAnnouncement` answers with. -/
theorem listing_board (sort : SortSlice) (clock : ℤ) (hclock : 0 ≤ clock) (ls : List Label)
    (s : State) (hrun : Lts.run step { clock } ls = some s)
    (hapart : Lts.Along step Apart { clock } ls) (names : List String) (hnodup : names.Nodup)
    (hall : ∀ id, s.news.value id ≠ none → id ∈ names) :
    ∃ drafts, listAnnouncement sort (.ok (itemsOf s.news names)) =
        .ok (drafts ++ boardOf { clock } ls) ∧
      (∀ i ∈ drafts, i.status.pubTime = 0) ∧
      ∀ env i, env.getFails = false → env.lag = 0 →
        (i ∈ drafts ++ boardOf { clock } ls ↔ getAnnouncement s.news env i.id = .ok i) := by
  have hshows := shows_run (shows_empty hclock) hapart hrun
  obtain ⟨drafts, hslice, hdrafts⟩ := hshows.slice sort hnodup hall
  refine ⟨drafts, congrArg Except.ok hslice, hdrafts, fun env i hget hlag => ?_⟩
  have hperm := sort.perm lessPubTime (infos s.news names)
  rw [hslice] at hperm
  exact (hperm.mem_iff.trans (mem_infos hall i)).trans (getAnnouncement_ok_iff hget hlag i).symm

/-- Three announcements are published, one of them is edited, one is deleted, and one more is
written. -/
def sample : List Label :=
  [.other (.apply "welcome" { title := "Welcome" }), .other (.deliver "welcome" { now := 100 }),
    .other (.apply "outage" { title := "Outage" }), .other (.deliver "outage" { now := 200 }),
    .other (.apply "repair" { title := "Repair" }), .other (.deliver "repair" { now := 300 }),
    .other (.apply "welcome" { title := "Hello" }), .remove "outage" {},
    .other (.apply "draft" { title := "Draft" })]

/-- Every delivery is in a later second than the last one. -/
def later (s : State) : Label → Bool
  | .other (.deliver _ env) => s.clock < env.now
  | _ => true

theorem apart_of_later {l : Label} (hs : Shows s.news s.clock b) (h : later s l = true) :
    Apart s l := by
  cases l with
  | remove => trivial
  | other l =>
      cases l with
      | apply | create | delete => trivial
      | deliver id env =>
          intro info _ k a ha
          have hle := (hs.times k a ha).2
          have hlt : s.clock < env.now := decide_eq_true_iff.mp h
          omega

theorem along_of_later {ls : List Label} (hclock : 0 ≤ clock)
    (h : Lts.check step later { clock } ls = true) : Lts.Along step Apart { clock } ls := by
  have hkeep : ∀ (s : State) (l : Label) s', (∃ b, Shows s.news s.clock b) → later s l = true →
      step s l = some s' → ∃ b, Shows s'.news s'.clock b := by
    rintro s l s' ⟨b, hs⟩ hl hstep
    exact ⟨_, shows_step hs (apart_of_later hs hl) hstep⟩
  exact Lts.Along.of_invariant hkeep (fun s l ⟨b, hs⟩ hl => apart_of_later hs hl)
    ⟨[], shows_empty hclock⟩ (Lts.along_of_check h)

theorem sample_board : ∃ s drafts, Lts.run step { clock := 0 } sample = some s ∧
    listAnnouncement mergeSlice (.ok (itemsOf s.news (sample.map Label.key).dedup)) =
      .ok (drafts ++ boardOf { clock := 0 } sample) ∧
    boardOf { clock := 0 } sample =
      [⟨"welcome", "Hello", "", "", { pubTime := 100, editTime := 100 }⟩,
        ⟨"repair", "Repair", "", "", { pubTime := 300, editTime := 300 }⟩] := by
  have hcheck : Lts.check step later { clock := 0 } sample = true := by decide
  obtain ⟨s, hs⟩ : ∃ s, Lts.run step { clock := 0 } sample = some s := ⟨_, rfl⟩
  obtain ⟨drafts, h, -, -⟩ := listing_board mergeSlice 0 (by decide) sample s hs
    (along_of_later (by decide) hcheck)
    (sample.map Label.key).dedup (List.nodup_dedup _) fun id => mem_keys_of_value hs
  exact ⟨s, drafts, hs, h, by decide⟩

end KubeSync.AnnouncementBoard
