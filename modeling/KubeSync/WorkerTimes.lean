import KubeSync.Worker
import KubeSync.WorkerSettings

/-! # The times that the worker schedules

The interval of a Job is a number of minutes.  `newMirrorProvider` makes a `time.Duration` of it, a
64-bit number of nanoseconds, and `runSchedule` adds that to the last update when it starts and to
the clock behind each run.

* `TimesRight` is what the two times should be.
* `timesRight_iff`: they are, exactly when neither the nanoseconds of the interval nor the seconds
  of the first time leave the 64 bits. -/

namespace KubeSync.Worker

open WorkerConfig (IsInt64 Lib MirrorProvider newMirrorProvider parts_of_new)

/-- The times that are scheduled lie `interval` minutes behind the last update and behind the
moment at which the last message of a run is handled. -/
structure TimesRight (cfg : Config) (interval : ℤ) (st : JobStatus) : Prop where
  startUp : ∀ t, startPc cfg st = .spawn (some t) → t = st.lastUpdate + 60 * interval
  afterRun : ∀ (s : State) (m : JobMessage) (now : ℤ), s.sched = .addJob m → m.schedule = true →
    ∃ t, stepSched cfg s now = some (callAddJob s t .getJob false) ∧
      t = now / 1000000000 + 60 * interval ∧ now < t * 1000000000

/-- The start-up switch schedules a run. -/
def Schedules (st : JobStatus) : Prop := st.status ≠ .disabled ∧ st.status ≠ .paused

variable {cfg : Config} {interval z : ℤ} {st : JobStatus}

/-! ### 64 bits -/

theorem wrapInt64_eq_iff : wrapInt64 z = z ↔ IsInt64 z := by
  unfold wrapInt64 IsInt64
  omega

theorem isInt64_wrapInt64 (z : ℤ) : IsInt64 (wrapInt64 z) := by
  unfold wrapInt64 IsInt64
  omega

/-- The seconds of a duration that did not wrap. -/
theorem seconds_eq (hpos : 0 < interval) (h : interval * 60000000000 < 2 ^ 63) :
    wrapInt64 (interval * 60000000000) = 60 * interval * 1000000000 := by
  have hint : IsInt64 (interval * 60000000000) := by
    unfold IsInt64
    omega
  rw [wrapInt64_eq_iff.mpr hint]
  omega

/-! ### The two times -/

theorem startPc_of_schedules (h : Schedules st) :
    startPc cfg st =
      .spawn (some (wrapInt64 (st.lastUpdate + cfg.provider.interval.tdiv 1000000000))) := by
  unfold startPc
  split
  next hd => exact absurd hd h.1
  next hp => exact absurd hp h.2
  next => rfl

theorem schedules_of_spawn {t : ℤ} (h : startPc cfg st = .spawn (some t)) : Schedules st := by
  unfold startPc at h
  split at h
  next => cases h
  next => cases h
  next hd hp => exact ⟨hd, hp⟩

theorem stepSched_addJob (s : State) (m : JobMessage) (now : ℤ) (hs : s.sched = .addJob m)
    (hm : m.schedule = true) :
    stepSched cfg s now =
      some (callAddJob s ((now + cfg.provider.interval) / 1000000000) .getJob false) := by
  unfold stepSched
  rw [hs]
  exact if_pos hm

/-- In the first state a message that ends a run is scheduled at the time of its step. -/
theorem seconds_of_afterRun (h : TimesRight cfg interval st) :
    cfg.provider.interval / 1000000000 = 60 * interval := by
  obtain ⟨t, hstep, ht, -⟩ := h.afterRun { State.init with sched := .addJob ⟨.success, "", true⟩ }
    ⟨.success, "", true⟩ 0 rfl rfl
  rw [stepSched_addJob _ _ 0 rfl rfl] at hstep
  have hnext := congrArg (fun s => s.map fun s => s.schedule.nextScheduled) hstep
  change some ((0 + cfg.provider.interval) / 1000000000) = some t at hnext
  have htime := Option.some.inj hnext
  omega

/-- **Times.**  For every positive interval and every last update, the worker schedules the runs an
interval behind the last update and behind the last run exactly when the interval has less than 2^63
nanoseconds and the first time, where there is one, is below 2^63 seconds. -/
theorem timesRight_iff (lib : Lib) (settings : WorkerConfig.Config) (p : MirrorProvider)
    (cfg : Config) (st : JobStatus) (hp : newMirrorProvider lib settings = .ok p)
    (hcfg : cfg.provider.interval = p.base.interval) (hpos : 0 < settings.interval)
    (hlast : IsInt64 st.lastUpdate) :
    TimesRight cfg settings.interval st ↔
      settings.interval * 60000000000 < 2 ^ 63 ∧
        (Schedules st → st.lastUpdate + 60 * settings.interval < 2 ^ 63) := by
  obtain ⟨logDir, -, -, hbase, -⟩ := parts_of_new hp
  have hnanos : cfg.provider.interval = wrapInt64 (settings.interval * 60000000000) := by
    rw [hcfg, hbase]
    rfl
  have hrange : IsInt64 cfg.provider.interval := by
    rw [hnanos]
    exact isInt64_wrapInt64 _
  unfold IsInt64 at hlast hrange
  constructor
  · intro h
    have hseconds := seconds_of_afterRun h
    have hlt : settings.interval * 60000000000 < 2 ^ 63 := by omega
    refine ⟨hlt, fun hs => ?_⟩
    have hfirst := h.startUp _ (startPc_of_schedules hs)
    rw [hnanos, seconds_eq hpos hlt, Int.mul_tdiv_cancel _ (by decide), wrapInt64_eq_iff] at hfirst
    exact hfirst.2
  · rintro ⟨hlt, hsum⟩
    have hexact : cfg.provider.interval = 60 * settings.interval * 1000000000 := by
      rw [hnanos, seconds_eq hpos hlt]
    refine ⟨fun t ht => ?_, fun s m now hs hm => ?_⟩
    · have hs := schedules_of_spawn ht
      have hfirst := hsum hs
      have hint : IsInt64 (st.lastUpdate + 60 * settings.interval) := by
        unfold IsInt64
        omega
      rw [startPc_of_schedules hs, hexact, Int.mul_tdiv_cancel _ (by decide),
        wrapInt64_eq_iff.mpr hint] at ht
      cases ht
      rfl
    · refine ⟨_, stepSched_addJob s m now hs hm, ?_, ?_⟩
      · rw [hexact]
        omega
      · rw [hexact]
        omega

/-- The settings of a mirror that is synced every `minutes` minutes. -/
def settingsEvery (minutes : String) : WorkerConfig.Config :=
  WorkerConfig.readConfig (WorkerConfig.lookupEnv
    [{ name := "NAME", value := "debian" }, { name := "UPSTREAM", value := "rsync://upstream/" },
      { name := "INTERVAL", value := minutes }])

def providerEvery (minutes : String) : MirrorProvider where
  base := WorkerConfig.baseOf (settingsEvery minutes) "/var/log"
  kind := .rsync "rsync" (WorkerConfig.rsyncOptionsOf (settingsEvery minutes))
  hooks := [.logLimiter]

def configEvery (minutes : String) : Config where
  provider := ⟨"debian", [0], 2, "0s", (providerEvery minutes).base.interval⟩
  concurrent := 3

theorem timesRight_daily :
    (settingsEvery "1440").interval = 1440 ∧
      TimesRight (configEvery "1440") 1440 { lastUpdate := 1700000000 } :=
  ⟨by decide, (timesRight_iff WorkerConfig.plainLib (settingsEvery "1440") (providerEvery "1440")
    (configEvery "1440") { lastUpdate := 1700000000 } (by decide +kernel) rfl (by decide)
    (by decide)).mpr ⟨by decide, fun _ => by decide⟩⟩

/-- An interval of about 380 years, meant as never, puts the first run into the past. -/
theorem interval_wraps :
    (settingsEvery "200000000").interval = 200000000 ∧
      newMirrorProvider WorkerConfig.plainLib (settingsEvery "200000000") =
        .ok (providerEvery "200000000") ∧
      startPc (configEvery "200000000") { lastUpdate := 1700000000 } =
        .spawn (some (-4746744073)) ∧
      ¬ TimesRight (configEvery "200000000") 200000000 { lastUpdate := 1700000000 } := by
  refine ⟨by decide, by decide +kernel, by decide, fun h => ?_⟩
  have hfirst := h.startUp (-4746744073) (by decide)
  revert hfirst
  decide

end KubeSync.Worker
