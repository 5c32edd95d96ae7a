import KubeSync.JobMerge

/-! # The configuration of a job, read and posted again

`GET /job/:id/config` answers with the spec of a job, and `POST /job/:id` takes one.

* The answer is a `MirrorConfig`, the spec with one more field `id`.  Read as a spec the field is
  passed over; read as a map of maps it is an error of `BindJSON`, behind which the handler goes on
  with all the rest (`configBody`).
* `config_copied`: what is read for one job makes a new job of the same spec, and on a known job
  sets the fields that are written in it; on a job with the same spec nothing changes. -/

namespace KubeSync.JobMerge

/-- The answer of `getJobConfig`, as the body of a request. -/
def configBody (s : JobSpec) : Manager.SpecBody where
  spec := unmarshal (marshal s)
  merge := { value := fun o => applied o (marshal s), ok := false }

variable {s o s' : JobSpec}

theorem marshal_eq_some {part : Part} {name : String} {j : Json}
    (h : marshal s part name = some j) :
    ∃ k : Key, k.part = part ∧ k.name = name ∧ k.kind.marshal (field s k) = some j := by
  obtain ⟨k, hk, hj⟩ := Option.bind_eq_some_iff.mp h
  have hnames := List.find?_some hk
  obtain ⟨hpart, hname⟩ := of_decide_eq_true hnames
  exact ⟨k, hpart, hname, hj⟩

/-- What is written for a field of the spec is read again. -/
theorem Sound.reads (hs : Sound s) {k : Key} {j : Json}
    (h : k.kind.marshal (field s k) = some j) :
    ∃ w, k.kind.unmarshal j = some w ∧ k.kind.marshal w = k.kind.marshal (field s k) := by
  refine unmarshal_marshal h fun _ n hn => ?_
  subst hn
  exact (hs k n h).2

theorem Sound.wellTyped (hs : Sound s) : (marshal s).WellTyped := by
  intro part name j hj
  obtain ⟨k, hpart, hname, hk⟩ := marshal_eq_some hj
  obtain ⟨w, hw, -⟩ := hs.reads hk
  exact ⟨k, hpart, hname, hw ▸ Option.some_ne_none w⟩

theorem Sound.survives (hs : Sound s) : (marshal s).Survives := by
  intro part name n hn
  obtain ⟨k, -, -, hk⟩ := marshal_eq_some hn
  exact (hs k n hk).1

/-- The spec that is read is the one that was written. -/
theorem unmarshal_marshal_spec (hs : Sound s) :
    (unmarshal (marshal s)).ok = true ∧ SameSpec (unmarshal (marshal s)).value s := by
  have hread : ∀ k : Key, ∃ w, (marshal s).read k = some w ∧
      k.kind.marshal w = k.kind.marshal (field s k) := by
    intro k
    unfold Obj.read
    rw [marshal_key]
    cases hk : k.kind.marshal (field s k) with
    | none => exact ⟨k.kind.zero, rfl, (marshal_zero hk).trans hk⟩
    | some j =>
        obtain ⟨w, hw, hsame⟩ := hs.reads hk
        exact ⟨w, hw, hsame.trans hk⟩
  exact exists_unmarshal_iff.mpr hread

/-- Over a spec for which the same is written, nothing changes. -/
theorem Overridden.same (h : Overridden o (marshal s) s') (hs : Sound s) (ho : SameSpec o s) :
    SameSpec s' s := by
  intro k
  have hk := h k
  unfold Expected at hk
  rw [marshal_key] at hk
  cases hj : k.kind.marshal (field s k) with
  | none =>
      rw [hj] at hk
      exact hk.trans ((ho k).trans hj)
  | some j =>
      rw [hj] at hk
      obtain ⟨v, hv, hsame⟩ := hk
      obtain ⟨w, hw, hwsame⟩ := hs.reads hj
      obtain rfl := Option.some.inj (hv.symm.trans hw)
      exact hsame.trans (hwsame.trans hj)

/-- The spec that a request leaves for a job. -/
def specAfter (r : Manager.Reply) (id : String) : Option JobSpec := (r.store.value id).map Job.spec

/-- A new job gets the spec for which the same is written. -/
theorem copied_new {jobs : Manager.Jobs} {env : Manager.Env} {id e : String} (hs : Sound s)
    (hwrite : env.writeFails = false) (hget : Manager.get jobs env id = .error e) :
    ∃ s', specAfter (Manager.createJob jobs env id (configBody s)) id = some s' ∧
      SameSpec s' s := by
  obtain ⟨-, hsame⟩ := unmarshal_marshal_spec hs
  refine ⟨_, ?_, hsame⟩
  unfold specAfter Manager.createJob Manager.Code.createJob
  rw [Manager.Code.reply_get, hget]
  exact value_applySpec jobs env hwrite id _ _

/-- On a known job the fields that are written are set, under the answer to a body that does not
decode. -/
theorem copied_known {jobs : Manager.Jobs} {env : Manager.Env} {id : String} {n : ℕ} {job : Job}
    (hs : Sound s) (hjob : Sound job.spec) (hwrite : env.writeFails = false)
    (hget : Manager.get jobs env id = .ok (n, job)) :
    ∃ s', specAfter (Manager.createJob jobs env id (configBody s)) id = some s' ∧
      Overridden job.spec (marshal s) s' ∧
      (Manager.createJob jobs env id (configBody s)).code = 400 := by
  obtain ⟨s', happlied, hover⟩ := (applied_iff hjob hs.wellTyped).mpr hs.survives
  have hreply : Manager.createJob jobs env id (configBody s) =
      Manager.applySpec jobs env id s' [⟨400, .nothing⟩] := by
    unfold Manager.createJob Manager.Code.createJob
    rw [Manager.Code.reply_get, hget]
    dsimp only [configBody]
    rw [happlied]
    rfl
  refine ⟨s', ?_, hover, ?_⟩
  · unfold specAfter
    rw [hreply]
    exact value_applySpec jobs env hwrite id s' _
  · rw [hreply]
    rw [Manager.applySpec_eq]
    split <;> rfl

/-- **Copies.**  What `getJobConfig` answers for a job, posted to any job of any later store: a new
job gets the spec for which the same is written; on a known job the fields that are written are set
and the others stay, under an answer that says that the body was not understood; and a job with the
same spec keeps it. -/
theorem config_copied {jobs later : Manager.Jobs} {env env' : Manager.Env} {id : String} {n : ℕ}
    {job : Job} (hget : Manager.get jobs env id = .ok (n, job)) (hs : Small job.spec)
    (hwrite : env'.writeFails = false) (id' : String) :
    ∃ config, (Manager.getJobConfig jobs env id).written = [⟨200, .config id config⟩] ∧
      (∀ e, Manager.get later env' id' = .error e →
        ∃ s', specAfter (Manager.createJob later env' id' (configBody config)) id' = some s' ∧
          SameSpec s' config) ∧
      ∀ n' known, Manager.get later env' id' = .ok (n', known) → Small known.spec →
        (Manager.createJob later env' id' (configBody config)).code = 400 ∧
          ∃ s', specAfter (Manager.createJob later env' id' (configBody config)) id' = some s' ∧
            Overridden known.spec (marshal config) s' ∧
            (SameSpec known.spec config → SameSpec s' config) := by
  refine ⟨job.spec, ?_, fun e he => copied_new hs.sound hwrite he, fun n' known hknown hsmall => ?_⟩
  · unfold Manager.getJobConfig Manager.Code.getJobConfig
    rw [Manager.Code.reply_get, hget]
    rfl
  · obtain ⟨s', hspec, hover, hcode⟩ := copied_known hs.sound hsmall.sound hwrite hknown
    exact ⟨hcode, s', hspec, hover, hover.same hs.sound⟩

/-- A store with one job. -/
def debianStore : Manager.Jobs :=
  Versioned.Store.empty.push "debian" (some { name := "debian", spec := debianSpec })

/-- The configuration of a job, copied to a new one and to itself. -/
theorem config_copied_debian :
    (∃ config, (Manager.getJobConfig debianStore {} "debian").written =
        [⟨200, .config "debian" config⟩] ∧
      ∃ s', specAfter (Manager.createJob debianStore {} "debian-copy" (configBody config))
        "debian-copy" = some s' ∧ SameSpec s' config) ∧
    ∃ config s', specAfter (Manager.createJob debianStore {} "debian" (configBody config))
      "debian" = some s' ∧ Overridden debianSpec (marshal config) s' := by
  have hget : Manager.get debianStore {} "debian" =
      .ok (1, { name := "debian", spec := debianSpec }) := rfl
  obtain ⟨e, he⟩ : ∃ e, Manager.get debianStore {} "debian-copy" = .error e := ⟨_, rfl⟩
  constructor
  · obtain ⟨config, hconfig, hnew, -⟩ :=
      @config_copied debianStore debianStore {} {} "debian" 1 _ hget debianSpec_small rfl
        "debian-copy"
    exact ⟨config, hconfig, hnew e he⟩
  · obtain ⟨config, -, -, hknown⟩ :=
      @config_copied debianStore debianStore {} {} "debian" 1 _ hget debianSpec_small rfl "debian"
    obtain ⟨-, s', hspec, hover, -⟩ := hknown _ _ hget debianSpec_small
    exact ⟨config, s', hspec, hover⟩

end KubeSync.JobMerge
