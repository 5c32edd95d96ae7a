import KubeSync.MirrorZ

/-! # The status string of a mirror

`statusOf` writes the status of a job as `U`, or as segments of a letter and a decimal time: the
letter of the status, and up to three more.

* `readBack` reads the segments of a text, and `readBack_render` says that it finds those that were
  written: a text has at most one list of segments.
* `statusOf_wellFormed_iff`: the string has this form, with no letter twice, exactly if the job is
  not a created one that is registered and has never been updated. -/

namespace KubeSync.MirrorZ

/-! ### Segments -/

/-- A letter and a time. -/
abbrev Segment := Char × ℕ

def render (segs : List Segment) : Text := segs.flatMap fun seg => seg.1 :: Nat.toDigits 10 seg.2

/-- One character, from the right: the digits in front of the next segment, and the segments. -/
def readStep (c : Char) (acc : Option (Text × List Segment)) : Option (Text × List Segment) :=
  acc.bind fun (ds, segs) =>
    if c.isDigit then some (c :: ds, segs)
    else (Recognizer.digits ds).map fun n => ([], (c, n) :: segs)

/-- The segments of a text. -/
def readBack (text : Text) : Option (List Segment) :=
  match text.foldr readStep (some ([], [])) with
  | some ([], segs) => some segs
  | _ => none

theorem foldr_readStep_digits {ds : Text} (h : ∀ c ∈ ds, c.isDigit = true) (ds' : Text)
    (segs : List Segment) :
    ds.foldr readStep (some (ds', segs)) = some (ds ++ ds', segs) := by
  induction ds with
  | nil => rfl
  | cons c ds ih =>
      rw [List.foldr_cons, ih fun c hc => h c (List.mem_cons_of_mem _ hc)]
      simp only [readStep, Option.bind_some, h c List.mem_cons_self, if_true, List.cons_append]

theorem foldr_readStep_render {segs : List Segment} (h : ∀ seg ∈ segs, seg.1.isDigit = false) :
    (render segs).foldr readStep (some ([], [])) = some ([], segs) := by
  induction segs with
  | nil => rfl
  | cons seg segs ih =>
      have hdigits : ∀ c ∈ Nat.toDigits 10 seg.2, c.isDigit = true :=
        fun c hc => Nat.isDigit_of_mem_toDigits (by decide) (by decide) hc
      have htail := ih fun seg' hseg => h seg' (List.mem_cons_of_mem _ hseg)
      have hrender : render (seg :: segs) = seg.1 :: (Nat.toDigits 10 seg.2 ++ render segs) := rfl
      rw [hrender, List.foldr_cons, List.foldr_append, htail, foldr_readStep_digits hdigits]
      simp only [readStep, Option.bind_some, h seg List.mem_cons_self, List.append_nil,
        Recognizer.digits_toDigits, Option.map_some]
      rfl

/-- Segments are read back from their text. -/
theorem readBack_render {segs : List Segment} (h : ∀ seg ∈ segs, seg.1.isDigit = false) :
    readBack (render segs) = some segs := by
  unfold readBack
  rw [foldr_readStep_render h]

theorem not_isDigit_of_isAlpha {c : Char} (h : c.isAlpha = true) : c.isDigit = false := by
  unfold Char.isAlpha at h
  unfold Char.isDigit
  rw [Bool.or_eq_true] at h
  unfold Char.isUpper Char.isLower at h
  grind

/-! ### The status -/

/-- The letter of a status and the time that belongs to it. -/
def markOf (st : JobStatus) : Option (Char × ℤ) :=
  match st.status with
  | .success => some ('S', st.lastUpdate)
  | .preSyncing => some ('D', st.scheduled)
  | .syncing => some ('Y', st.lastStarted)
  | .failed => some ('F', st.lastEnded)
  | .paused => some ('P', st.lastEnded)
  | .created => some ('N', st.lastRegister)
  | _ => none

/-- The text is made of segments of one letter and a decimal time, no letter occurs twice, the first
one is that of the status with its time, and they can be read back. -/
structure Decodes (st : JobStatus) (text : Text) (segs : List Segment) : Prop where
  rendered : text = render segs
  letters : ∀ seg ∈ segs, seg.1.isAlpha = true
  nodup : (segs.map Prod.fst).Nodup
  first : ∃ (c : Char) (n : ℕ), markOf st = some (c, (n : ℤ)) ∧ segs.head? = some (c, n)
  back : readBack text = some segs

/-- The times of a status. -/
structure NonNegative (st : JobStatus) : Prop where
  lastUpdate : 0 ≤ st.lastUpdate
  lastStarted : 0 ≤ st.lastStarted
  lastEnded : 0 ≤ st.lastEnded
  scheduled : 0 ≤ st.scheduled
  lastRegister : 0 ≤ st.lastRegister

/-- A segment, unless `cond` fails. -/
def segmentIf (cond : Prop) [Decidable cond] (c : Char) (time : ℤ) : List Segment :=
  if cond then [(c, time.toNat)] else []

/-- The segments behind the first one. -/
def restOf (st : JobStatus) : List Segment :=
  segmentIf (st.scheduled ≠ 0) 'X' st.scheduled ++
    segmentIf (st.lastUpdate = 0 ∧ st.lastRegister ≠ 0) 'N' st.lastRegister ++
    segmentIf ((st.status = .syncing ∨ st.status = .failed) ∧ st.lastUpdate ≠ 0) 'O' st.lastUpdate

variable {st : JobStatus} {v : Job}

theorem toList_toString {z : ℤ} (h : 0 ≤ z) : (toString z).toList = Nat.toDigits 10 z.toNat := by
  obtain ⟨n, rfl⟩ := Int.eq_ofNat_of_zero_le h
  exact Nat.toList_repr

theorem toList_segmentIf {cond : Prop} [Decidable cond] {c : Char} {z : ℤ} (h : 0 ≤ z) :
    (if cond then String.ofList [c] ++ toString z else "").toList =
      render (segmentIf cond c z) := by
  unfold segmentIf
  split
  · rw [String.toList_append, String.toList_ofList, toList_toString h]
    simp [render]
  · rfl

theorem render_append (segs segs' : List Segment) :
    render (segs ++ segs') = render segs ++ render segs' := List.flatMap_append

theorem suffixOf_eq (h : NonNegative st) : (suffixOf st).toList = render (restOf st) := by
  unfold suffixOf restOf
  rw [String.toList_append, String.toList_append, render_append, render_append,
    ← toList_segmentIf h.scheduled, ← toList_segmentIf h.lastRegister,
    ← toList_segmentIf h.lastUpdate]

theorem markOf_nonneg {c : Char} {t : ℤ} (h : NonNegative st) (hm : markOf st = some (c, t)) :
    0 ≤ t := by
  unfold markOf at hm
  split at hm <;> cases hm
  · exact h.lastUpdate
  · exact h.scheduled
  · exact h.lastStarted
  · exact h.lastEnded
  · exact h.lastEnded
  · exact h.lastRegister

/-- The switch over the status writes the first segment, or `U`. -/
theorem letterOf_eq (st : JobStatus) :
    letterOf st = (match markOf st with
      | some (c, t) => stamp (String.ofList [c]) t
      | none => "U") := by
  unfold letterOf markOf
  cases st.status <;> rfl

theorem toList_stamp {c : Char} {t : ℤ} (h : 0 ≤ t) (ht : t ≠ 0) :
    (stamp (String.ofList [c]) t).toList = render [(c, t.toNat)] := by
  unfold stamp
  rw [if_pos ht, String.toList_append, String.toList_ofList, toList_toString h]
  simp [render]

/-- A segment is longer than `U`. -/
theorem render_ne_unknown (seg : Segment) (segs : List Segment) : render (seg :: segs) ≠ ['U'] := by
  intro h
  have htail : Nat.toDigits 10 seg.2 ++ render segs = [] := (List.cons.inj h).2
  exact Nat.toDigits_ne_nil (List.append_eq_nil_iff.mp htail).1

theorem statusOf_of_mark {c : Char} {t : ℤ} (hv : v.spec.config.type ≠ .proxy)
    (h : NonNegative v.status) (hm : markOf v.status = some (c, t)) (ht : t ≠ 0) :
    (statusOf v).toList = render ((c, t.toNat) :: restOf v.status) := by
  have hletter : letterOf v.status = stamp (String.ofList [c]) t := by rw [letterOf_eq, hm]
  have hlist := toList_stamp (c := c) (markOf_nonneg h hm) ht
  have hne : letterOf v.status ≠ "U" := by
    intro heq
    rw [hletter] at heq
    rw [heq] at hlist
    exact render_ne_unknown _ [] hlist.symm
  unfold statusOf
  split
  · rename_i hproxy
    exact absurd hproxy hv
  · rw [if_pos hne, String.toList_append, suffixOf_eq h, hletter, hlist, ← render_append]
    rfl

theorem statusOf_of_no_mark (hv : v.spec.config.type ≠ .proxy)
    (hm : ∀ c t, markOf v.status = some (c, t) → t = 0) : statusOf v = "U" := by
  have hletter : letterOf v.status = "U" := by
    rw [letterOf_eq]
    cases hmark : markOf v.status with
    | none => rfl
    | some m => exact if_neg (not_not.mpr (hm m.1 m.2 hmark))
  unfold statusOf
  split
  · rename_i hproxy
    exact absurd hproxy hv
  · rw [if_neg (not_not.mpr hletter), hletter]

/-! ### The letters -/

theorem letters_restOf (st : JobStatus) :
    (restOf st).map Prod.fst =
      (if st.scheduled ≠ 0 then ['X'] else []) ++
        (if st.lastUpdate = 0 ∧ st.lastRegister ≠ 0 then ['N'] else []) ++
        (if (st.status = .syncing ∨ st.status = .failed) ∧ st.lastUpdate ≠ 0 then ['O']
          else []) := by
  unfold restOf segmentIf
  split_ifs <;> rfl

theorem nodup_restOf (st : JobStatus) : ((restOf st).map Prod.fst).Nodup := by
  rw [letters_restOf]
  split_ifs <;> decide

theorem markOf_letter {c : Char} {t : ℤ} (hm : markOf st = some (c, t)) :
    c.isAlpha = true ∧ c ≠ 'X' ∧ c ≠ 'O' ∧ (c = 'N' ↔ st.status = .created) := by
  unfold markOf at hm
  split at hm <;> cases hm <;> simp_all

theorem isAlpha_restOf : ∀ seg ∈ restOf st, seg.1.isAlpha = true := by
  intro seg hseg
  have hmem : seg.1 ∈ (restOf st).map Prod.fst := List.mem_map_of_mem hseg
  have hsub : seg.1 ∈ ['X', 'N', 'O'] := by
    rw [letters_restOf] at hmem
    revert hmem
    split_ifs <;> simp <;> tauto
  revert hsub
  simp only [List.mem_cons, List.not_mem_nil, or_false]
  rintro (h | h | h) <;> rw [h] <;> rfl

/-- The letter of the status comes again only as `N`. -/
theorem mem_letters_restOf {c : Char} {t : ℤ} (hm : markOf st = some (c, t)) :
    c ∈ (restOf st).map Prod.fst ↔
      st.status = .created ∧ st.lastUpdate = 0 ∧ st.lastRegister ≠ 0 := by
  obtain ⟨-, hX, hO, hN⟩ := markOf_letter hm
  rw [letters_restOf, ← hN]
  split_ifs <;> simp_all

theorem isAlpha_segments {c : Char} {t : ℤ} (hm : markOf st = some (c, t)) :
    ∀ seg ∈ (c, t.toNat) :: restOf st, seg.1.isAlpha = true :=
  List.forall_mem_cons.mpr ⟨(markOf_letter hm).1, isAlpha_restOf⟩

/-- Letters and times can be told apart, so a text has one list of segments. -/
theorem Decodes.unique {text : Text} {segs segs' : List Segment} (h : Decodes st text segs)
    (hr : text = render segs') (hs : ∀ seg ∈ segs', seg.1.isAlpha = true) : segs = segs' := by
  have hback := h.back
  rw [hr, readBack_render fun seg hseg => not_isDigit_of_isAlpha (hs seg hseg)] at hback
  exact (Option.some.inj hback).symm

theorem decodes_of_mark {c : Char} {t : ℤ} (hv : v.spec.config.type ≠ .proxy)
    (h : NonNegative v.status) (hm : markOf v.status = some (c, t)) (ht : t ≠ 0)
    (hN : c ∉ (restOf v.status).map Prod.fst) :
    Decodes v.status (statusOf v).toList ((c, t.toNat) :: restOf v.status) where
  rendered := statusOf_of_mark hv h hm ht
  letters := isAlpha_segments hm
  nodup := List.nodup_cons.mpr ⟨hN, nodup_restOf v.status⟩
  first := ⟨c, t.toNat, by rw [hm, Int.toNat_of_nonneg (markOf_nonneg h hm)], rfl⟩
  back := by
    rw [statusOf_of_mark hv h hm ht]
    exact readBack_render fun seg hseg => not_isDigit_of_isAlpha (isAlpha_segments hm seg hseg)

/-- **The status string.**  For a job that is not a proxy it is `U` or made of segments that can be
read back, the first one that of the status and no letter twice, except for a created job that is
registered and was never updated: its string has two segments `N`. -/
theorem statusOf_wellFormed_iff (hv : v.spec.config.type ≠ .proxy) (h : NonNegative v.status) :
    ((mirrorOf v).status = "U" ∨ ∃ segs, Decodes v.status (mirrorOf v).status.toList segs) ↔
      ¬ (v.status.status = .created ∧ v.status.lastUpdate = 0 ∧ v.status.lastRegister ≠ 0) := by
  change (statusOf v = "U" ∨ ∃ segs, Decodes v.status (statusOf v).toList segs) ↔ _
  by_cases hmark : ∃ c t, markOf v.status = some (c, t) ∧ t ≠ 0
  · obtain ⟨c, t, hm, ht⟩ := hmark
    have htext := statusOf_of_mark hv h hm ht
    rw [← mem_letters_restOf hm]
    constructor
    · rintro (hU | ⟨segs, hdec⟩)
      · rw [hU] at htext
        exact absurd htext.symm (render_ne_unknown _ _)
      · obtain rfl := hdec.unique htext (isAlpha_segments hm)
        exact (List.nodup_cons.mp hdec.nodup).1
    · exact fun hN => .inr ⟨_, decodes_of_mark hv h hm ht hN⟩
  · have hzero : ∀ c t, markOf v.status = some (c, t) → t = 0 := by
      intro c t hm
      by_contra ht
      exact hmark ⟨c, t, hm, ht⟩
    refine iff_of_true (.inl (statusOf_of_no_mark hv hzero)) ?_
    rintro ⟨hc, -, hr⟩
    refine hr (hzero 'N' _ ?_)
    unfold markOf
    rw [hc]

/-- A job that fails after it was updated. -/
def failedJob : Job :=
  { name := "debian"
    spec := { config := { upstream := "rsync://upstream/debian/" } }
    status := { status := .failed, lastUpdate := 100, lastStarted := 250, lastEnded := 300,
                scheduled := 400, lastRegister := 50 } }

theorem statusOf_wellFormed_failed :
    (mirrorOf failedJob).status = "F300X400O100" ∧
      ∃ segs, Decodes failedJob.status (mirrorOf failedJob).status.toList segs := by
  have htext : (mirrorOf failedJob).status = "F300X400O100" := by decide
  refine ⟨htext, ((statusOf_wellFormed_iff (v := failedJob) (by decide) ?_).mpr
    (by decide)).resolve_left ?_⟩
  · exact ⟨by decide, by decide, by decide, by decide, by decide⟩
  · rw [htext]
    decide

/-- A job that was created and registered. -/
def createdJob : Job :=
  { name := "debian"
    spec := { config := { upstream := "rsync://upstream/debian/" } }
    status := { status := .created, lastRegister := 50 } }

/-- The letter `N` comes twice. -/
theorem created_registered_twice :
    (mirrorOf createdJob).status = "N50N50" ∧ createdJob.spec.config.type ≠ .proxy ∧
      NonNegative createdJob.status ∧
      ∀ segs, ¬ Decodes createdJob.status (mirrorOf createdJob).status.toList segs := by
  have htext : (mirrorOf createdJob).status = "N50N50" := by decide
  refine ⟨htext, by decide, ⟨by decide, by decide, by decide, by decide, by decide⟩, ?_⟩
  intro segs hdec
  have hrender : (mirrorOf createdJob).status.toList = render [('N', 50), ('N', 50)] := by
    rw [htext]
    rfl
  obtain rfl := hdec.unique hrender (by decide)
  exact absurd hdec.nodup (by decide)

end KubeSync.MirrorZ
