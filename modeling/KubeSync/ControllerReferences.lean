import KubeSync.ControllerFilter

/-! # References between the objects of a Job

The objects that a Reconcile applies refer to each other by name: the Service to ports of the
containers, the Ingress and the ServiceMonitor to ports of the Service, the containers to volumes,
and the volumes to the claim and the ConfigMap.

* `RefsClosed as` says that every reference in the objects applied by `as` is met by an object
  applied by `as`.
* `refsClosed_iff` says when that is so.  Each builder decides for itself what is enabled; the
  Service names the ports `api` and `metrics` whether or not there is a container that has them. -/

namespace KubeSync.Controller

open Reconciler

/-- The references in the objects that `as` applies are met. -/
structure RefsClosed (as : List Action) : Prop where
  /-- A target port of the Service is a named port of a container. -/
  target : ∀ svc, Action.apply (.service svc) ∈ as → ∀ p ∈ svc.ports,
    ∃ app, Action.apply (.deployment app) ∈ as ∧
      ∃ c ∈ app.pod.containers, ∃ q ∈ c.ports, q.name = p.targetPort
  /-- The backend of the Ingress is the Service and one of its ports. -/
  backend : ∀ ig, Action.apply (.ingress ig) ∈ as → ∀ path ∈ ig.paths,
    ∃ svc, Action.apply (.service svc) ∈ as ∧ svc.metadata.name = path.serviceName ∧
      ∃ p ∈ svc.ports, p.name = path.servicePort
  /-- A volume mount names a declared volume. -/
  mount : ∀ app, Action.apply (.deployment app) ∈ as → ∀ c ∈ app.pod.containers,
    ∀ m ∈ c.volumeMounts, ∃ v ∈ app.pod.volumes, v.name = m.name
  /-- A volume is the claim or the ConfigMap. -/
  claim : ∀ app, Action.apply (.deployment app) ∈ as → ∀ v ∈ app.pod.volumes,
    ∀ name, v.source = .persistentVolumeClaim name →
      ∃ pvc, Action.apply (.persistentVolumeClaim pvc) ∈ as ∧ pvc.metadata.name = name
  configMap : ∀ app, Action.apply (.deployment app) ∈ as → ∀ v ∈ app.pod.volumes,
    ∀ name, v.source = .configMap name →
      ∃ cm, Action.apply (.configMap cm) ∈ as ∧ cm.metadata.name = name
  /-- The port of the ServiceMonitor is a port of the Service. -/
  monitor : ∀ sm, Action.apply (.serviceMonitor sm) ∈ as → ∀ e ∈ sm.endpoints,
    ∃ svc, Action.apply (.service svc) ∈ as ∧ ∃ p ∈ svc.ports, p.name = e.port
  /-- The Service and the Deployment select the pods of the Deployment. -/
  selector : ∀ app, Action.apply (.deployment app) ∈ as →
    app.matchLabels ⊆ app.templateLabels ∧
      ∀ svc, Action.apply (.service svc) ∈ as → svc.selector ⊆ app.templateLabels

/-- Every port that the Service names has a container: there is a worker, and with metrics there is
a front end. -/
def PortsMet (r : Reconciler) (job : Job) : Prop :=
  (job.status.status ≠ .disabled ∧ r.workerImage job ≠ "") ∧
    (r.config.enableMetric = true → (r.checkRsyncFront job).disableFront = false)

variable {r : Reconciler} {job : Job} {manager : String} {ms : List String} {b : Built}
  {app : Deployment} {svc : Service}

/-! ### What is applied -/

/-- The objects of the apply path. -/
theorem mem_actions (ha : b.app = some app) {o : Object} :
    Action.apply o ∈ b.actions job ↔
      o = .persistentVolumeClaim b.pvc ∨ o = .service b.svc ∨ o = .deployment app ∨
        (b.disableFront = false ∧ ∃ ig, b.ig = some ig ∧ o = .ingress ig) ∨
        (b.disableFront = false ∧ ∃ cm, b.frontCM = some cm ∧ o = .configMap cm) ∨
        ∃ sm, b.sm = some sm ∧ o = .serviceMonitor sm := by
  unfold Built.actions Built.applies
  rw [ha]
  cases b.disableFront <;>
    simp [Option.mem_toList, eq_comm (b := o), or_left_comm, or_comm]

theorem service_of_apply (ha : b.app = some app)
    (h : Action.apply (.service svc) ∈ b.actions job) : svc = b.svc := by
  rw [mem_actions ha] at h
  simpa using h

/-! ### The parts of the objects -/

/-- The names of the ports of a Service. -/
theorem ports_of_service (h : r.desiredService job = .ok svc) {name : String} :
    (∃ p ∈ svc.ports, p.name = name) ↔
      name = "api" ∨ (name = "front" ∧ (r.checkRsyncFront job).disableFront = false) ∨
        (name = "rsync" ∧ (r.checkRsyncFront job).disableRsync = false) ∨
        (name = "metrics" ∧ r.config.enableMetric = true) := by
  obtain ⟨m, -, h⟩ := bind_eq_ok.mp h
  cases h
  cases (r.checkRsyncFront job).disableFront <;> cases (r.checkRsyncFront job).disableRsync <;>
    cases r.config.enableMetric <;> simp [eq_comm (a := name)]

theorem targetPort_of_service (h : r.desiredService job = .ok svc) :
    ∀ p ∈ svc.ports, p.targetPort = p.name := by
  obtain ⟨m, -, h⟩ := bind_eq_ok.mp h
  cases h
  intro p hp
  cases hf : (r.checkRsyncFront job).disableFront <;>
    cases hr : (r.checkRsyncFront job).disableRsync <;>
    cases he : r.config.enableMetric <;> simp [hf, hr, he] at hp <;>
    rcases hp with rfl | rfl | rfl | rfl <;> rfl

/-- The worker's container. -/
theorem mem_worker {cs : List Container} (h : r.worker job manager = .ok cs) {c : Container}
    (hc : c ∈ cs) :
    job.spec.config.upstream ≠ "" ∧ ∃ limits, c =
      { name := job.name
        image := r.workerImage job
        imagePullPolicy := r.pullPolicy job
        env := r.workerEnv job manager
        livenessProbe := probe apiPort
        readinessProbe := probe apiPort
        volumeMounts := [dataMount job]
        ports := [{ containerPort := apiPort, name := "api", protocol := "TCP" }]
        limits } := by
  unfold worker at h
  split at h
  · unfold workerContainer at h
    split at h
    next => cases h
    next hup =>
      obtain ⟨limits, -, h⟩ := bind_eq_ok.mp h
      split at h
      · cases h
        cases hc
      · cases h
        exact ⟨hup, limits, List.mem_singleton.mp hc⟩
  · cases h
    cases hc

/-- The worker's container has the port `api`, the data volume and the settings of the job. -/
theorem worker_container {cs : List Container} (h : r.worker job manager = .ok cs) :
    ∀ c ∈ cs, c.ports = [{ containerPort := apiPort, name := "api", protocol := "TCP" }] ∧
      c.volumeMounts = [dataMount job] ∧ c.env = r.workerEnv job manager ∧
      job.spec.config.upstream ≠ "" := by
  intro c hc
  obtain ⟨hup, limits, rfl⟩ := mem_worker h hc
  exact ⟨rfl, rfl, rfl, hup⟩

theorem mem_servers {cm : Option ConfigMap} {c : Container} :
    c ∈ r.servers job cm ↔
      ((r.checkRsyncFront job).disableFront = false ∧ c = r.frontContainer job cm) ∨
        ((r.checkRsyncFront job).disableRsync = false ∧ c = r.rsyncContainer job) := by
  unfold servers
  cases (r.checkRsyncFront job).disableFront <;> cases (r.checkRsyncFront job).disableRsync <;>
    simp

/-- The names of the ports of the containers. -/
theorem ports_of_containers (hb : r.build job manager = .ok b) (ha : b.app = some app)
    {name : String} :
    (∃ c ∈ app.pod.containers, ∃ q ∈ c.ports, q.name = name) ↔
      (name = "api" ∧ job.status.status ≠ .disabled ∧ r.workerImage job ≠ "") ∨
        ((r.checkRsyncFront job).disableFront = false ∧
          (name = "front" ∨ name = "metrics" ∧ r.config.enableMetric = true)) ∨
        ((r.checkRsyncFront job).disableRsync = false ∧ name = "rsync") := by
  obtain ⟨cs, hw, hcs⟩ := containers_of_build hb ha
  have hworker : (∃ c ∈ cs, ∃ q ∈ c.ports, q.name = name) ↔ name = "api" ∧ cs ≠ [] := by
    constructor
    · rintro ⟨c, hc, q, hq, hn⟩
      rw [(worker_container hw c hc).1] at hq
      obtain rfl := List.mem_singleton.mp hq
      exact ⟨hn.symm, List.ne_nil_of_mem hc⟩
    · rintro ⟨rfl, hne⟩
      obtain ⟨c, hc⟩ := List.exists_mem_of_ne_nil cs hne
      refine ⟨c, hc, { containerPort := apiPort, name := "api", protocol := "TCP" }, ?_, rfl⟩
      rw [(worker_container hw c hc).1]
      exact List.mem_singleton.mpr rfl
  have hfront : (∃ q ∈ (r.frontContainer job b.frontCM).ports, q.name = name) ↔
      name = "front" ∨ name = "metrics" ∧ r.config.enableMetric = true := by
    unfold frontContainer
    cases r.config.enableMetric <;> simp [eq_comm (a := name)]
  have hrsync : (∃ q ∈ (r.rsyncContainer job).ports, q.name = name) ↔ name = "rsync" := by
    simp [rsyncContainer, eq_comm (a := name)]
  rw [← worker_ne_nil hw, ← hworker, ← hfront, ← hrsync, hcs]
  simp only [List.mem_append, mem_servers, or_and_right, exists_or, and_assoc, exists_eq_left,
    exists_and_left]

/-- A mount names the data volume or, in the front end, the volume of the ConfigMap. -/
theorem mounts_of_containers (hb : r.build job manager = .ok b) (ha : b.app = some app)
    {c : Container} (hc : c ∈ app.pod.containers) {m : VolumeMount} (hm : m ∈ c.volumeMounts) :
    m.name = job.name ∨
      (r.checkRsyncFront job).disableFront = false ∧
        ∃ cm, b.frontCM = some cm ∧ m.name = cm.metadata.name := by
  obtain ⟨cs, hw, hcs⟩ := containers_of_build hb ha
  rw [hcs] at hc
  rcases List.mem_append.mp hc with hc | hc
  · rw [(worker_container hw c hc).2.1] at hm
    obtain rfl := List.mem_singleton.mp hm
    exact .inl rfl
  · rcases mem_servers.mp hc with ⟨hd, rfl⟩ | ⟨-, rfl⟩
    · rcases List.mem_cons.mp hm with rfl | hm
      · exact .inl rfl
      · cases hcm : b.frontCM with
        | none =>
            rw [hcm] at hm
            cases hm
        | some cm =>
            rw [hcm] at hm
            obtain rfl := List.mem_singleton.mp hm
            exact .inr ⟨hd, cm, rfl, rfl⟩
    · obtain rfl := List.mem_singleton.mp hm
      exact .inl rfl

/-- The Deployment is made of its containers. -/
theorem app_eq_deployment (hb : r.build job manager = .ok b) (ha : b.app = some app) :
    app = r.deployment job b.frontCM app.pod.containers app.metadata := by
  have happ := (build_eq_ok.mp hb).2.2.2.1
  rw [ha] at happ
  obtain ⟨cs, -, happ⟩ := bind_eq_ok.mp happ
  unfold deploymentOf at happ
  split at happ
  · cases happ
  · obtain ⟨m, -, happ⟩ := bind_eq_ok.mp happ
    cases happ
    rfl

theorem deployment_of_build (hb : r.build job manager = .ok b) (ha : b.app = some app) :
    app.matchLabels = getCommonLabels job.name ∧ app.templateLabels = getCommonLabels job.name ∧
      app.pod.volumes = r.volumes job b.frontCM := by
  rw [app_eq_deployment hb ha]
  exact ⟨rfl, rfl, rfl⟩

theorem mem_volumes {cm : Option ConfigMap} {v : Volume} :
    v ∈ r.volumes job cm ↔
      v = { name := job.name, source := .persistentVolumeClaim job.name } ∨
        (r.checkRsyncFront job).disableFront = false ∧ ∃ cm', cm = some cm' ∧
          v = { name := cm'.metadata.name, source := .configMap cm'.metadata.name } := by
  unfold volumes
  cases (r.checkRsyncFront job).disableFront <;> cases cm <;> simp

theorem name_of_claim {pvc : PersistentVolumeClaim}
    (h : r.desiredPersistentVolumeClaim job = .ok pvc) : pvc.metadata.name = job.name := by
  obtain ⟨storage, -, h⟩ := bind_eq_ok.mp h
  obtain ⟨m, hm, h⟩ := bind_eq_ok.mp h
  cases h
  exact (setControllerReference_ok hm).1

theorem name_of_service (h : r.desiredService job = .ok svc) :
    svc.metadata.name = serviceName job.name ∧ svc.selector = getCommonLabels job.name := by
  obtain ⟨m, hm, h⟩ := bind_eq_ok.mp h
  cases h
  exact ⟨(setControllerReference_ok hm).1, rfl⟩

theorem paths_of_ingress {ig : Ingress} (h : r.desiredIngress job = .ok ig) :
    ∀ path ∈ ig.paths, path.serviceName = serviceName job.name ∧ path.servicePort = "front" := by
  obtain ⟨m, -, h⟩ := bind_eq_ok.mp h
  cases h
  intro path hp
  obtain rfl := List.mem_singleton.mp hp
  exact ⟨rfl, rfl⟩

/-! ### Closed references -/

/-- The target ports are met exactly when each port of the Service is one of a container. -/
theorem targets_iff (hb : r.build job manager = .ok b) (ha : b.app = some app) :
    (∀ p ∈ b.svc.ports, ∃ c ∈ app.pod.containers, ∃ q ∈ c.ports, q.name = p.targetPort) ↔
      PortsMet r job := by
  have hsvc := (build_eq_ok.mp hb).2.2.2.2.1
  have hnames : (∀ p ∈ b.svc.ports, ∃ c ∈ app.pod.containers, ∃ q ∈ c.ports,
        q.name = p.targetPort) ↔
      ∀ name, (∃ p ∈ b.svc.ports, p.name = name) →
        ∃ c ∈ app.pod.containers, ∃ q ∈ c.ports, q.name = name := by
    constructor
    · rintro h name ⟨p, hp, rfl⟩
      rw [← targetPort_of_service hsvc p hp]
      exact h p hp
    · intro h p hp
      rw [targetPort_of_service hsvc p hp]
      exact h p.name ⟨p, hp, rfl⟩
  rw [hnames]
  simp only [ports_of_service hsvc, ports_of_containers hb ha]
  unfold PortsMet
  constructor
  · intro h
    refine ⟨by simpa using h "api" (.inl rfl), fun he => ?_⟩
    have hmetrics := h "metrics" (.inr (.inr (.inr ⟨rfl, he⟩)))
    simp only [String.reduceEq, false_and, and_false, true_and, false_or, or_false] at hmetrics
    exact hmetrics.1
  · rintro ⟨hw, hm⟩ name (rfl | ⟨rfl, hf⟩ | ⟨rfl, hr⟩ | ⟨rfl, he⟩)
    · exact .inl ⟨rfl, hw⟩
    · exact .inr (.inl ⟨hf, .inl rfl⟩)
    · exact .inr (.inr ⟨hr, rfl⟩)
    · exact .inr (.inl ⟨hm he, .inr ⟨rfl, he⟩⟩)

/-- Every reference but the target ports is met. -/
theorem refsClosed_of_targets (hb : r.build job manager = .ok b) (ha : b.app = some app)
    (h : ∀ p ∈ b.svc.ports, ∃ c ∈ app.pod.containers, ∃ q ∈ c.ports, q.name = p.targetPort) :
    RefsClosed (b.actions job) := by
  obtain ⟨hd, hf, hpvc, -, hsvc, hsm⟩ := build_eq_ok.mp hb
  obtain ⟨hmatch, hlabels, hvolumes⟩ := deployment_of_build hb ha
  have hservice : Action.apply (.service b.svc) ∈ b.actions job :=
    (mem_actions ha).mpr (.inr (.inl rfl))
  have happ : ∀ app', Action.apply (.deployment app') ∈ b.actions job → app' = app := by
    intro app' h'
    exact Option.some.inj ((app_of_apply h').symm.trans ha)
  constructor
  case target =>
    intro svc hs p hp
    rw [service_of_apply ha hs] at hp
    exact ⟨app, (mem_actions ha).mpr (.inr (.inr (.inl rfl))), h p hp⟩
  case backend =>
    intro ig hi path hpath
    have hi' : b.disableFront = false ∧ b.ig = some ig := by
      rw [mem_actions ha] at hi
      simpa using hi
    rcases buildFront_ok hf with ⟨hdis, -, -⟩ | ⟨hdis, ig', hig, hbuilt, -⟩
    · cases (hd.symm.trans hi'.1).symm.trans hdis
    · obtain rfl := Option.some.inj (hig.symm.trans hi'.2)
      obtain ⟨hname, hport⟩ := paths_of_ingress hbuilt path hpath
      refine ⟨b.svc, hservice, by rw [hname, (name_of_service hsvc).1], ?_⟩
      exact (ports_of_service hsvc).mpr (.inr (.inl ⟨hport, hdis⟩))
  case mount =>
    intro app' h' c hc m hm
    rw [happ app' h'] at hc ⊢
    rw [hvolumes]
    rcases mounts_of_containers hb ha hc hm with hn | ⟨hdis, cm, hcm, hn⟩
    · exact ⟨_, mem_volumes.mpr (.inl rfl), hn.symm⟩
    · exact ⟨_, mem_volumes.mpr (.inr ⟨hdis, cm, hcm, rfl⟩), hn.symm⟩
  case claim =>
    intro app' h' v hv name hsource
    rw [happ app' h', hvolumes] at hv
    rcases mem_volumes.mp hv with rfl | ⟨-, cm, -, rfl⟩
    · cases hsource
      exact ⟨b.pvc, (mem_actions ha).mpr (.inl rfl), name_of_claim hpvc⟩
    · cases hsource
  case configMap =>
    intro app' h' v hv name hsource
    rw [happ app' h', hvolumes] at hv
    rcases mem_volumes.mp hv with rfl | ⟨hdis, cm, hcm, rfl⟩
    · cases hsource
    · cases hsource
      refine ⟨cm, (mem_actions ha).mpr ?_, rfl⟩
      exact .inr (.inr (.inr (.inr (.inl ⟨hd.trans hdis, cm, hcm, rfl⟩))))
  case monitor =>
    intro sm hm e he
    have hm' : b.sm = some sm := by
      rw [mem_actions ha] at hm
      simpa using hm
    rw [hsm] at hm'
    split at hm'
    · rename_i hmetric
      cases hm'
      obtain rfl := List.mem_singleton.mp he
      exact ⟨b.svc, hservice, (ports_of_service hsvc).mpr (.inr (.inr (.inr ⟨rfl, hmetric⟩)))⟩
    · cases hm'
  case selector =>
    intro app' h'
    rw [happ app' h', hmatch, hlabels]
    refine ⟨List.Subset.refl _, fun svc hs => ?_⟩
    rw [service_of_apply ha hs, (name_of_service hsvc).2]
    exact List.Subset.refl _

/-- **Closed references.**  Where Reconcile applies a Deployment, the objects it applies refer only
to each other exactly when the Deployment has a worker and, if metrics are enabled, a front end. -/
theorem refsClosed_iff (r : Reconciler) (manager : String) (ms : List String) (job : Job)
    (as : List Action) (h : r.reconcile (manager :: ms) job = .ok as)
    (hd : ∃ app, Action.apply (.deployment app) ∈ as) : RefsClosed as ↔ PortsMet r job := by
  obtain ⟨app, happ⟩ := hd
  obtain ⟨-, b, hb, hmem⟩ := Desires.build ⟨as, h, happ⟩
  have ha := app_of_apply hmem
  obtain rfl : as = b.actions job := by
    have hs : skips job = false := (Desires.build ⟨as, h, happ⟩).1
    exact Except.ok.inj (h.symm.trans (reconcile_of_build hs hb))
  rw [← targets_iff hb ha]
  constructor
  · intro hc p hp
    obtain ⟨app', happ', hport⟩ := hc.target b.svc ((mem_actions ha).mpr (.inr (.inl rfl))) p hp
    obtain rfl := Option.some.inj (ha.symm.trans (app_of_apply happ'))
    exact hport
  · exact refsClosed_of_targets hb ha

theorem refsClosed_debian : ∃ as,
    plainReconciler.reconcile ["manager"] (mirrorOf "debian") = .ok as ∧ RefsClosed as :=
  ⟨_, rfl, (refsClosed_iff plainReconciler "manager" [] (mirrorOf "debian") _ rfl
    ⟨_, .tail _ (.tail _ (.head _))⟩).mpr ⟨⟨by decide, by decide⟩, nofun⟩⟩

/-- A disabled job with a front end keeps its Deployment, in which no container has the port `api`
that the Service names. -/
theorem disabled_front_dangles : ∃ as,
    { plainReconciler with config := { frontMode := "caddy" } }.reconcile ["manager"]
        (debianWith .disabled) = .ok as ∧
      (∃ app, Action.apply (.deployment app) ∈ as) ∧ ¬ RefsClosed as := by
  refine ⟨_, rfl, ⟨_, .tail _ (.tail _ (.tail _ (.head _)))⟩, fun hc => ?_⟩
  obtain ⟨app, happ, hport⟩ := hc.target _ (.tail _ (.head _)) _ (.head _)
  obtain rfl := Option.some.inj (app_of_apply (b := ⟨_, _, _, _, _, _, _⟩) happ)
  revert hport
  decide

end KubeSync.Controller
