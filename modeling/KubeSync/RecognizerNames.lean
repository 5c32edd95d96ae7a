import KubeSync.Recognizer

/-! # The names that the recogniser can read

The cases of the recogniser index into the parts of a name.  Where the name has fewer parts than a
case expects, or an empty one where it looks at the first character, the index is out of range.

* `short` says for which parts that happens: five of the distributions have such names.
* `Reads Q x` says that a case returns, with a path that has the property `Q`.  There is one lemma a
  case, for any property that the path has before, and `recognize_reads_iff` puts them together: it
  says which names are read, and that the path is left alone. -/

namespace KubeSync.Recognizer

/-! ### Short names -/

/-- The parts without the optional word `w` in front. -/
def dropWord (w : String) : List Text → List Text
  | [] => []
  | x :: sp => if x = w.toList then sp else x :: sp

/-- The words of an Ubuntu name behind its version that end too early. -/
def shortWords : List Text → Bool
  | [] => true
  | [x] => x = "src".toList
  | [x, y] => x = "legacy".toList ∨ x ≠ "src".toList ∧ y = "legacy".toList
  | [x, _, z] => x = "legacy".toList ∧ z = "legacy".toList
  | _ => false

def shortDebian (sp : List Text) : Bool := 3 ≤ sp.length ∧ sp[0]? = some []

def shortUbuntu (sp : List Text) : Bool :=
  3 ≤ sp.length ∧
    (∀ w ∈ ["budgie", "gnome", "mate", "unity"], sp[0]? ≠ some w.toList) ∧
    shortWords (dropWord "live" (dropWord "beta" sp.tail))

def shortKali (sp : List Text) : Bool := 3 ≤ sp.length ∧ sp[1]? = some []

def shortOpenSUSE (sp : List Text) : Bool :=
  sp = ["Tumbleweed".toList, "Current".toList] ∨
    sp = ["Tumbleweed".toList, "Rescue".toList, "Current".toList]

def shortAlmaLinux (sp : List Text) : Bool := sp.length = 3 ∧ sp[1]? = some "latest".toList

/-- The parts of the names on which an index is out of range. -/
def short : List Text → Bool
  | [] => false
  | dist :: sp =>
      if dist = "debian".toList then shortDebian sp
      else if dist = "ubuntu".toList then shortUbuntu sp
      else if dist = "kali".toList then sp[0]? = some "linux".toList ∧ shortKali sp.tail
      else if dist = "openSUSE".toList then shortOpenSUSE sp
      else if dist = "AlmaLinux".toList then shortAlmaLinux sp
      else false

/-! ### The parts of a name -/

theorem hasPrefix_iff {s : Text} {p : String} :
    hasPrefix s p = true ↔ ∃ rest, s = p.toList ++ rest := by
  unfold hasPrefix
  rw [List.isPrefixOf_iff_prefix]
  exact ⟨fun ⟨rest, h⟩ => ⟨rest, h.symm⟩, fun ⟨rest, h⟩ => ⟨rest, h.symm⟩⟩

@[simp] theorem trimPrefix_append (p : String) (rest : Text) :
    trimPrefix (p.toList ++ rest) p = rest := by
  unfold trimPrefix
  rw [if_pos (hasPrefix_iff.mpr ⟨rest, rfl⟩), List.drop_left]

theorem split_ne_nil (s : Text) : split s ≠ [] := List.splitOn_ne_nil _ _

theorem join_split (s : Text) : join (split s) = s := List.intercalate_splitOn '-'

theorem split_append {w : Text} (hw : '-' ∉ w) (rest : Text) :
    split (w ++ '-' :: rest) = w :: split rest := by
  unfold split
  rw [List.splitOn_append_cons_self, List.splitOn_eq_singleton hw, List.singleton_append]

/-! ### Reading -/

/-- A case of the switch returns, and what it returns has a path with the property. -/
def Reads (Q : Text → Prop) (x : Option FileInfo) : Prop := ∃ f, x = some f ∧ Q f.path

section

variable {Q : Text → Prop} {f : FileInfo} {sp : List Text}

@[simp] theorem reads_some : Reads Q (some f) ↔ Q f.path := by simp [Reads]

@[simp] theorem not_reads_none : ¬ Reads Q none := by simp [Reads]

theorem reads_bind {α : Type} {x : Option α} {k : α → Option FileInfo} :
    Reads Q (x >>= k) ↔ ∃ a, x = some a ∧ Reads Q (k a) := by
  cases x <;> simp

/-- An index in range. -/
theorem reads_get {i : ℕ} {k : Text → Option FileInfo} (hi : i < sp.length)
    (h : ∀ x, sp[i]? = some x → Reads Q (k x)) : Reads Q (sp[i]? >>= k) := by
  rw [reads_bind]
  have hx := List.getElem?_eq_getElem hi
  exact ⟨_, hx, h _ hx⟩

theorem reads_get_iff {i : ℕ} {x : Text} {k : Text → Option FileInfo} (hx : sp[i]? = some x) :
    Reads Q (sp[i]? >>= k) ↔ Reads Q (k x) := by
  rw [hx]
  rfl

theorem reads_ite {c : Prop} [Decidable c] {x y : Option FileInfo} (hx : c → Reads Q x)
    (hy : ¬ c → Reads Q y) : Reads Q (if c then x else y) := by
  split
  next hc => exact hx hc
  next hc => exact hy hc

/-! ### The cases -/

theorem centOS_reads (hf : Q f.path) (name : Text) : Reads Q (centOS f name) := by
  unfold centOS
  refine reads_get (List.length_pos_of_ne_nil (split_ne_nil _)) fun _ _ => ?_
  refine reads_ite (fun h => ?_) fun _ => reads_some.mpr hf
  refine reads_get (by omega) fun _ _ => reads_get (by omega) fun _ _ => ?_
  refine reads_get (by omega) fun _ _ => ?_
  exact reads_ite (fun _ => reads_some.mpr hf) fun _ => reads_some.mpr hf

theorem debianRest_reads (hf : Q f.path) {start : ℕ} (h : start + 2 ≤ sp.length) :
    Reads Q (debianRest f sp start) := by
  unfold debianRest
  refine reads_get (by omega) fun _ _ => reads_get (by omega) fun _ _ => ?_
  refine reads_ite (fun h3 => ?_) fun _ => reads_some.mpr hf
  refine reads_get (by omega) fun _ _ => ?_
  refine reads_ite (fun h4 => reads_get (by omega) fun _ _ => ?_) fun _ => ?_
  all_goals
    rw [reads_some]
    split_ifs <;> exact hf

theorem debian_reads_iff (hf : Q f.path) (rest : Text) :
    Reads Q (debian f ("debian-".toList ++ rest)) ↔ shortDebian (split rest) = false := by
  unfold debian shortDebian
  rw [trimPrefix_append]
  generalize split rest = sp
  match sp with
  | [] | [_] | [_, _] => simp [hf]
  | [] :: b :: c :: sp => simp
  | (x :: xs) :: b :: c :: sp =>
      refine iff_of_true (reads_ite (fun h => ?_) fun _ => reads_some.mpr hf) (by simp)
      refine reads_get (by omega) fun first hfirst => ?_
      obtain rfl := Option.some.inj hfirst
      refine reads_bind.mpr ⟨x, rfl, ?_⟩
      refine reads_ite (fun _ => debianRest_reads ?_ ?_) fun _ => debianRest_reads ?_ ?_
      · exact hf
      · simp
      · exact hf
      · simp

theorem flavourRest_reads (hf : Q f.path) {n : ℕ} (h : n + 3 ≤ sp.length) :
    Reads Q (flavourRest f sp n) := by
  unfold flavourRest
  refine reads_get (by omega) fun _ _ => reads_get (by omega) fun _ _ => reads_ite ?_ ?_
  · intro _
    refine reads_get (by omega) fun _ _ => reads_ite ?_ fun _ => reads_some.mpr hf
    exact fun _ => reads_get (by omega) fun _ _ => reads_some.mpr hf
  · intro _
    refine reads_ite ?_ fun _ => reads_some.mpr hf
    exact fun _ => reads_get (by omega) fun _ _ => reads_some.mpr hf

theorem ubuntuFlavour_reads (hf : Q f.path) (name : Text) :
    Reads Q (ubuntuFlavour f name) := by
  unfold ubuntuFlavour
  refine reads_ite (fun h => ?_) fun _ => reads_some.mpr hf
  refine reads_get (by omega) fun _ _ => flavourRest_reads ?_ (by omega)
  exact hf

theorem ubuntuDesktop_reads (hf : Q f.path) (name : Text) :
    Reads Q (ubuntuDesktop f name) := by
  unfold ubuntuDesktop
  refine reads_ite (fun h => ?_) fun _ => reads_some.mpr hf
  refine reads_get (by omega) fun _ _ => reads_get (by omega) fun _ _ =>
    flavourRest_reads ?_ (by omega)
  exact hf

/-- Behind the edition there is an architecture, and behind the word `legacy` another part. -/
theorem ubuntuEdition_reads_iff (hf : Q f.path) {start : ℕ} {x y : Text} {ws : List Text}
    (hd : sp.drop start = x :: y :: ws) :
    Reads Q (ubuntuEdition f sp start) ↔
      ∃ arch l, (if x = "legacy".toList then ws else y :: ws) = arch :: l ∧
        (arch = "legacy".toList → l ≠ []) := by
  have hget : ∀ i, sp[start + i]? = (x :: y :: ws)[i]? := by
    intro i
    rw [← hd, List.getElem?_drop]
  have h0 : sp[start]? = some x := hget 0
  have h1 : sp[start + 1]? = some y := hget 1
  have hrest : ∀ i, sp[(if x = "legacy".toList then start + 1 else start) + (1 + i)]? =
      (if x = "legacy".toList then ws else y :: ws)[i]? := by
    intro i
    split
    next => rw [show start + 1 + (1 + i) = start + (i + 2) by omega, hget]; rfl
    next => rw [Nat.add_comm 1 i, hget]; rfl
  unfold ubuntuEdition
  rw [reads_get_iff h0, reads_get_iff h1]
  dsimp only
  rw [reads_bind, hrest 0]
  generalize hl : (if x = "legacy".toList then ws else y :: ws) = l at hrest
  match l with
  | [] =>
      refine iff_of_false ?_ ?_
      · rintro ⟨_, ha, -⟩
        cases ha
      · rintro ⟨_, _, ha, -⟩
        cases ha
  | arch :: l =>
      constructor
      · rintro ⟨_, ha, h⟩
        obtain rfl := Option.some.inj ha
        refine ⟨arch, l, rfl, fun hlegacy hnil => ?_⟩
        rw [if_pos hlegacy] at h
        obtain ⟨next, hnext, -⟩ := reads_bind.mp h
        rw [hnil] at hrest
        cases (hrest 1).symm.trans hnext
      · rintro ⟨_, _, hcons, h⟩
        obtain ⟨rfl, rfl⟩ := List.cons.inj hcons
        refine ⟨arch, rfl, reads_ite (fun hlegacy => ?_) fun _ => reads_some.mpr hf⟩
        obtain ⟨next, l, rfl⟩ := List.exists_cons_of_ne_nil (h hlegacy)
        exact reads_bind.mpr ⟨next, hrest 1, reads_some.mpr hf⟩

theorem shortWords_cons_cons {x y : Text} {ws : List Text} :
    shortWords (x :: y :: ws) = false ↔
      (x = "src".toList ∨ ∃ arch l, (if x = "legacy".toList then ws else y :: ws) = arch :: l ∧
        (arch = "legacy".toList → l ≠ [])) := by
  by_cases hl : x = "legacy".toList
  · subst hl
    match ws with
    | [] => simp [shortWords]
    | [z] => simp [shortWords]
    | z :: w :: ws => simp [shortWords]
  · rw [if_neg hl]
    match ws with
    | [] =>
        rw [shortWords, decide_eq_false_iff_not]
        generalize "legacy".toList = legacy at hl ⊢
        simp [hl, or_iff_not_imp_left]
    | [z] =>
        rw [shortWords, decide_eq_false_iff_not]
        generalize "legacy".toList = legacy at hl ⊢
        simp [hl]
    | z :: w :: ws => simp [shortWords]

/-- The words of an Ubuntu name from `start` on. -/
theorem ubuntuWords_reads_iff (hf : Q f.path) (start : ℕ) :
    Reads Q (do
      let src ← sp[start]?
      if src = "src".toList then
        let part ← sp[start + 1]?
        some { f with edition := src, part := (atoi part).1 }
      else if sp.length ≥ start + 2 then
        ubuntuEdition f sp start
      else
        some f) ↔ shortWords (sp.drop start) = false := by
  have hget : ∀ i, sp[start + i]? = (sp.drop start)[i]? := fun i => List.getElem?_drop.symm
  have hlen : (sp.drop start).length = sp.length - start := List.length_drop
  rw [reads_bind, show sp[start]? = _ from hget 0]
  match hd : sp.drop start with
  | [] => simp [shortWords]
  | [x] =>
      rw [hd] at hget hlen
      have hlt : ¬ sp.length ≥ start + 2 := by
        rw [List.length_singleton] at hlen
        omega
      by_cases hx : x = "src".toList
      · refine iff_of_false ?_ (by simp [shortWords, hx])
        rintro ⟨_, ha, h⟩
        obtain rfl := Option.some.inj ha
        rw [if_pos hx] at h
        obtain ⟨_, hpart, -⟩ := reads_bind.mp h
        cases (hget 1).symm.trans hpart
      · refine iff_of_true ⟨x, rfl, ?_⟩ (decide_eq_false hx)
        rw [if_neg hx, if_neg hlt]
        exact reads_some.mpr hf
  | x :: y :: ws =>
      rw [hd] at hget hlen
      have hge : sp.length ≥ start + 2 := by
        rw [List.length_cons, List.length_cons] at hlen
        omega
      rw [shortWords_cons_cons, ← ubuntuEdition_reads_iff hf hd]
      by_cases hx : x = "src".toList
      · refine iff_of_true ⟨x, rfl, ?_⟩ (.inl hx)
        rw [if_pos hx]
        exact reads_bind.mpr ⟨y, hget 1, reads_some.mpr hf⟩
      · constructor
        · rintro ⟨_, ha, h⟩
          obtain rfl := Option.some.inj ha
          rw [if_neg hx, if_pos hge] at h
          exact .inr h
        · intro h
          refine ⟨x, rfl, ?_⟩
          rw [if_neg hx, if_pos hge]
          exact h.resolve_left hx

theorem dropWord_drop (w : String) {start : ℕ} {x : Text} (hx : sp[start]? = some x) :
    dropWord w (sp.drop start) = sp.drop (if x = w.toList then start + 1 else start) := by
  have hdrop : sp.drop start = x :: sp.drop (start + 1) := by
    obtain ⟨hlt, rfl⟩ := List.getElem?_eq_some_iff.mp hx
    exact List.drop_eq_getElem_cons hlt
  rw [hdrop, dropWord]
  split
  next => rfl
  next => exact hdrop.symm

theorem ubuntu_reads_iff (hf : Q f.path) (rest : Text) :
    Reads Q (ubuntu f ("ubuntu-".toList ++ rest)) ↔
      ¬ (3 ≤ (split rest).length ∧
        shortWords (dropWord "live" (dropWord "beta" (split rest).tail)) = true) := by
  unfold ubuntu
  rw [trimPrefix_append]
  generalize split rest = sp
  by_cases h3 : sp.length ≥ 3
  · obtain ⟨second, h1⟩ : ∃ x, sp[1]? = some x := ⟨_, List.getElem?_eq_getElem (by omega)⟩
    obtain ⟨live, hlive⟩ : ∃ x, sp[if second = "beta".toList then 2 else 1]? = some x :=
      ⟨_, List.getElem?_eq_getElem (by split <;> omega)⟩
    rw [if_pos h3, reads_get_iff (List.getElem?_eq_getElem (by omega)), reads_get_iff h1,
      ← List.drop_one, dropWord_drop "beta" h1, dropWord_drop "live" hlive]
    refine (reads_get_iff hlive).trans ((ubuntuWords_reads_iff ?_ _).trans ?_)
    · exact hf
    · rw [and_iff_right h3, Bool.not_eq_true]
  · rw [if_neg h3]
    exact iff_of_true (reads_some.mpr hf) fun h => h3 h.1

theorem fedora_reads (hf : Q f.path) (name : Text) : Reads Q (fedora f name) := by
  unfold fedora
  refine reads_ite (fun h => ?_) fun _ => reads_some.mpr hf
  refine reads_get (by omega) fun _ _ => reads_get (by omega) fun _ _ => ?_
  refine reads_get (by omega) fun _ _ => reads_get (by omega) fun _ _ => ?_
  exact reads_get (by omega) fun _ _ => reads_some.mpr hf

theorem deepin_reads (hf : Q f.path) (name : Text) : Reads Q (deepin f name) := by
  unfold deepin
  refine reads_ite (fun h => ?_) fun _ => reads_some.mpr hf
  refine reads_get (by omega) fun _ _ => reads_get (by omega) fun _ _ => ?_
  exact reads_get (by omega) fun _ _ => reads_some.mpr hf

theorem kali_reads_iff (hf : Q f.path) (rest : Text) :
    Reads Q (kali f ("kali-linux-".toList ++ rest)) ↔ shortKali (split rest) = false := by
  unfold kali shortKali
  rw [trimPrefix_append]
  have hne := split_ne_nil rest
  generalize split rest = sp at hne
  match sp, hne with
  | [_], _ | [_, _], _ =>
      refine iff_of_true (reads_get (by simp) fun _ _ => ?_) (by simp)
      exact reads_ite (fun h => absurd h (by simp)) fun _ => reads_some.mpr hf
  | a :: [] :: c :: sp, _ =>
      refine iff_of_false (fun h => ?_) (by simp)
      obtain ⟨_, -, h⟩ := reads_bind.mp h
      rw [if_pos (by simp)] at h
      obtain ⟨week, hweek, h⟩ := reads_bind.mp h
      obtain rfl := Option.some.inj hweek
      obtain ⟨_, hc, -⟩ := reads_bind.mp h
      cases hc
  | a :: (x :: xs) :: c :: sp, _ =>
      refine iff_of_true (reads_get (by simp) fun _ _ => ?_) (by simp)
      refine reads_ite (fun _ => ?_) fun _ => reads_some.mpr hf
      refine reads_get (by simp) fun week hweek => ?_
      obtain rfl := Option.some.inj hweek
      refine reads_bind.mpr ⟨x, rfl, ?_⟩
      refine reads_ite (fun h => ?_) fun _ => reads_ite (fun h => ?_) fun _ => reads_some.mpr ?_
      · refine reads_get (by omega) fun _ _ => reads_get (by omega) fun _ _ => reads_some.mpr ?_
        split <;> exact hf
      · refine reads_get (by omega) fun _ _ => reads_get (by omega) fun _ _ => reads_some.mpr ?_
        split <;> exact hf
      · split <;> exact hf

/-- A part that is not the last one has one behind it. -/
theorem lt_of_ne_last {last x : Text} {i : ℕ} (hlast : sp.getLast? = some last)
    (hi : sp[i]? = some x) (hx : x ≠ last) : i + 1 < sp.length := by
  have hlt := (List.getElem?_eq_some_iff.mp hi).1
  by_contra hge
  rw [List.getLast?_eq_getElem?, show sp.length - 1 = i by omega, hi] at hlast
  exact hx (Option.some.inj hlast)

/-- The optional word `Live` is not the last part. -/
theorem live_lt_iff (hlast : sp.getLast? = some "Current".toList) (start : ℕ) :
    (if sp[start]? = some "Live".toList then start + 1 else start) < sp.length ↔
      start < sp.length := by
  split
  next hlive =>
    have hlt := lt_of_ne_last hlast hlive (by decide)
    omega
  next => rfl

theorem leapArch_reads (hf : Q f.path) (hlast : sp.getLast? = some "Current".toList)
    (start : ℕ) : Reads Q (leapArch f sp start) := by
  unfold leapArch
  refine reads_ite (fun h => ?_) fun _ => reads_some.mpr hf
  refine reads_get h fun live hlive => ?_
  have hlt := (live_lt_iff hlast start).mpr h
  rw [hlive] at hlt
  simp only [Option.some.injEq] at hlt
  exact reads_get hlt fun _ _ => reads_some.mpr hf

theorem leap_reads (hf : Q f.path) (hlast : sp.getLast? = some "Current".toList) :
    Reads Q (leap f sp) := by
  unfold leap
  refine reads_ite (fun h => ?_) fun _ => reads_some.mpr hf
  refine reads_get (by omega) fun _ _ => reads_get (by omega) fun edition hedition => ?_
  refine reads_ite (fun _ => leapArch_reads ?_ hlast 4) fun _ => ?_
  · exact hf
  refine reads_ite (fun hCR => ?_) fun _ => ?_
  · have hlt := lt_of_ne_last hlast hedition (by rw [hCR]; decide)
    refine reads_get hlt fun _ _ => leapArch_reads ?_ hlast 4
    exact hf
  refine reads_ite (fun hnumber => ?_) fun _ => leapArch_reads ?_ hlast 3
  · have hlt := lt_of_ne_last hlast hedition (by rintro rfl; cases hnumber)
    refine reads_get hlt fun _ _ => leapArch_reads ?_ hlast 4
    exact hf
  · exact hf

/-- The index of the architecture of a Tumbleweed name, whose edition is `first`. -/
theorem shortOpenSUSE_iff {first : Text} (hlast : sp.getLast? = some "Current".toList)
    (h0 : sp[0]? = some "Tumbleweed".toList) (h1 : sp[1]? = some first) :
    shortOpenSUSE sp = false ↔ (if first = "Rescue".toList then 3 else 2) < sp.length := by
  match sp with
  | [] | [_] => cases h1
  | [a, b] =>
      obtain rfl := Option.some.inj h0
      obtain rfl := Option.some.inj hlast
      obtain rfl := Option.some.inj h1
      decide
  | [a, b, c] =>
      obtain rfl := Option.some.inj h0
      obtain rfl := Option.some.inj hlast
      obtain rfl := Option.some.inj h1
      by_cases hb : b = "Rescue".toList
      · subst hb
        decide
      · refine iff_of_true (decide_eq_false ?_) (by rw [if_neg hb]; simp)
        rintro (h | h)
        · cases congrArg List.length h
        · exact hb (List.cons.inj (List.cons.inj h).2).1
  | a :: b :: c :: d :: sp =>
      refine iff_of_true (by simp [shortOpenSUSE]) ?_
      split <;> simp

/-- A Tumbleweed name needs a part behind its edition. -/
theorem tumbleweed_reads_iff (hf : Q f.path) (hlast : sp.getLast? = some "Current".toList)
    (h0 : sp[0]? = some "Tumbleweed".toList) :
    Reads Q (tumbleweed f sp) ↔ shortOpenSUSE sp = false := by
  have h2 : 0 + 1 < sp.length := lt_of_ne_last hlast h0 (by decide)
  obtain ⟨first, h1⟩ : ∃ x, sp[1]? = some x := ⟨_, List.getElem?_eq_getElem h2⟩
  rw [shortOpenSUSE_iff hlast h0 h1]
  unfold tumbleweed
  rw [if_pos (by omega), reads_get_iff h1]
  by_cases hlt : (if first = "Rescue".toList then 3 else 2) < sp.length
  · have hedition : ∃ e, (if first = "Rescue".toList then
        sp[2]?.map fun next => first ++ '-' :: next else some first) = some e := by
      split
      next hr =>
        rw [if_pos hr] at hlt
        rw [List.getElem?_eq_getElem (by omega)]
        exact ⟨_, rfl⟩
      next => exact ⟨_, rfl⟩
    obtain ⟨e, he⟩ := hedition
    refine iff_of_true (reads_bind.mpr ⟨e, he, reads_ite (fun _ => ?_) fun _ => ?_⟩) hlt
    · split <;> exact reads_some.mpr hf
    · exact reads_get ((live_lt_iff hlast _).mpr hlt) fun _ _ => reads_some.mpr hf
  · refine iff_of_false (fun h => hlt ?_) hlt
    obtain ⟨e, he, h⟩ := reads_bind.mp h
    have hyomi : hasPrefix e "Yomi" = false := by
      split at he
      next hr =>
        obtain ⟨next, -, rfl⟩ := Option.map_eq_some_iff.mp he
        rw [hr]
        rfl
      next hr =>
        rw [if_neg hr] at hlt
        rw [List.getLast?_eq_getElem?, show sp.length - 1 = 1 by omega, h1] at hlast
        cases hlast
        cases he
        rfl
    rw [hyomi, if_neg Bool.false_ne_true] at h
    obtain ⟨_, harch, -⟩ := reads_bind.mp h
    exact (live_lt_iff hlast _).mp (List.getElem?_eq_some_iff.mp harch).1

/-- The last part of a name that ends with `-Current`. -/
theorem getLast_split {rest : Text} (h : hasSuffix ("openSUSE-".toList ++ rest) "-Current" = true) :
    (split rest).getLast? = some "Current".toList := by
  obtain ⟨front, hfront⟩ := List.isSuffixOf_iff_suffix.mp h
  have hsplit : split ("openSUSE-".toList ++ rest) = "openSUSE".toList :: split rest :=
    split_append (w := "openSUSE".toList) (by decide) rest
  have hcurrent : split ("openSUSE-".toList ++ rest) = split front ++ ["Current".toList] := by
    rw [← hfront]
    exact List.splitOn_append_cons_self front "Current".toList
  have hlast := congrArg List.getLast? (hsplit.symm.trans hcurrent)
  rw [List.getLast?_concat, List.getLast?_cons_of_ne_nil (split_ne_nil rest)] at hlast
  exact hlast

/-- The short names are names of images. -/
theorem current_of_short {rest : Text} (h : shortOpenSUSE (split rest) = true) :
    contains ("openSUSE-".toList ++ rest) "Micro" = false ∧
      hasSuffix ("openSUSE-".toList ++ rest) "-Current" = true := by
  rw [← join_split rest]
  rcases of_decide_eq_true h with h | h
  · rw [h]
    decide
  · rw [h]
    decide

theorem openSUSE_reads_iff (hf : Q f.path) (rest : Text) :
    Reads Q (openSUSE f ("openSUSE-".toList ++ rest)) ↔ shortOpenSUSE (split rest) = false := by
  unfold openSUSE
  by_cases hc : contains ("openSUSE-".toList ++ rest) "Micro" = false ∧
      hasSuffix ("openSUSE-".toList ++ rest) "-Current" = true
  · have hlast := getLast_split hc.2
    rw [if_pos hc, trimPrefix_append]
    obtain ⟨major, h0⟩ : ∃ x, (split rest)[0]? = some x :=
      ⟨_, List.getElem?_eq_getElem (List.length_pos_of_ne_nil (split_ne_nil rest))⟩
    rw [reads_get_iff h0]
    by_cases ht : major = "Tumbleweed".toList
    · rw [if_neg (by rw [ht]; decide), if_pos ht]
      subst ht
      refine tumbleweed_reads_iff ?_ hlast h0
      exact hf
    · have hs : shortOpenSUSE (split rest) = false := by
        refine decide_eq_false ?_
        rintro (h | h) <;> rw [h] at h0 <;> exact ht (Option.some.inj h0).symm
      refine iff_of_true (reads_ite (fun _ => leap_reads ?_ hlast) fun _ => ?_) hs
      · exact hf
      rw [if_neg ht]
      refine reads_ite (fun hk => ?_) fun _ => reads_some.mpr hf
      exact reads_get (by omega) fun _ _ => reads_get (by omega) fun _ _ => reads_some.mpr hf
  · refine iff_of_true ?_ (eq_false_of_ne_true fun h => hc (current_of_short h))
    rw [if_neg hc]
    exact reads_some.mpr hf

theorem archlinux_reads (hf : Q f.path) (name : Text) : Reads Q (archlinux f name) := by
  unfold archlinux
  split <;> exact reads_some.mpr hf

theorem alpine_reads (hf : Q f.path) (name : Text) : Reads Q (alpine f name) := by
  unfold alpine
  split <;> exact reads_some.mpr hf

theorem proxmox_reads (hf : Q f.path) (name : Text) : Reads Q (proxmox f name) := by
  unfold proxmox
  split <;> exact reads_some.mpr hf

theorem texlive_reads (hf : Q f.path) (name : Text) : Reads Q (texlive f name) := by
  unfold texlive
  split <;> exact reads_some.mpr hf

theorem almaLinux_reads_iff (hf : Q f.path) (rest : Text) :
    Reads Q (almaLinux f ("AlmaLinux-".toList ++ rest)) ↔
      shortAlmaLinux (split rest) = false := by
  unfold almaLinux shortAlmaLinux
  rw [trimPrefix_append]
  have hne := List.length_pos_of_ne_nil (split_ne_nil rest)
  generalize split rest = sp at hne
  by_cases hs : sp.length = 3 ∧ sp[1]? = some "latest".toList
  · refine iff_of_false (fun h => ?_) (by rw [decide_eq_true hs]; exact nofun)
    obtain ⟨_, -, h⟩ := reads_bind.mp h
    rw [if_pos (by omega)] at h
    obtain ⟨second, hsecond, h⟩ := reads_bind.mp h
    obtain rfl := Option.some.inj (hsecond.symm.trans hs.2)
    obtain ⟨_, -, h⟩ := reads_bind.mp h
    obtain ⟨_, hlast, -⟩ := reads_bind.mp h
    rw [if_pos rfl] at hlast
    have hlt := (List.getElem?_eq_some_iff.mp hlast).1
    omega
  · refine iff_of_true (reads_get hne fun _ _ => ?_) (decide_eq_false hs)
    refine reads_ite (fun h3 => ?_) fun _ => reads_some.mpr hf
    refine reads_get (by omega) fun second hsecond => ?_
    have hstart : (if second = "latest".toList then 2 else 1) + 1 < sp.length := by
      split
      next hlatest =>
        have h4 : sp.length ≠ 3 := fun h => hs ⟨h, hlatest ▸ hsecond⟩
        omega
      next => omega
    refine reads_get (by omega) fun _ _ => reads_get hstart fun _ _ => ?_
    exact reads_ite (fun _ => reads_some.mpr hf) fun _ => reads_some.mpr hf

/-! ### The switch -/

/-- A name whose parts begin with the word `w`. -/
theorem eq_of_split {name w : Text} (hw : '-' ∉ w) (h : split name = w :: sp) (hsp : sp ≠ []) :
    ∃ rest, name = w ++ '-' :: rest ∧ split rest = sp := by
  have hname : name = w ++ '-' :: join sp := by
    rw [← join_split name, h]
    exact (List.intercalate_cons_of_ne_nil hsp).trans (List.append_assoc _ _ _)
  refine ⟨join sp, hname, ?_⟩
  rw [hname, split_append hw] at h
  exact (List.cons.inj h).2

/-- A name whose first part is `w`, with a part behind it, is a name of the case `w-`. -/
theorem hasPrefix_of_split {name w : Text} {p : String} (hw : '-' ∉ w) (hp : p.toList = w ++ ['-'])
    (h : split name = w :: sp) (hsp : sp ≠ []) : hasPrefix name p = true := by
  obtain ⟨rest, rfl, -⟩ := eq_of_split hw h hsp
  exact hasPrefix_iff.mpr ⟨rest, by rw [hp, List.append_assoc]; rfl⟩

theorem split_of_hasPrefix {name w : Text} {p : String} (hw : '-' ∉ w) (hp : p.toList = w ++ ['-'])
    (h : hasPrefix name p = true) :
    ∃ rest, name = p.toList ++ rest ∧ split name = w :: split rest := by
  obtain ⟨rest, rfl⟩ := hasPrefix_iff.mp h
  refine ⟨rest, rfl, ?_⟩
  rw [hp, List.append_assoc]
  exact split_append hw rest

/-- The names of a case `w-` of another distribution. -/
theorem not_short {name w : Text} {p : String}
    (hw : '-' ∉ w ∧ p.toList = w ++ ['-'] ∧
      w ∉ ["debian", "ubuntu", "kali", "openSUSE", "AlmaLinux"].map String.toList)
    (h : hasPrefix name p = true) : short (split name) = false := by
  obtain ⟨hdash, hp, hmem⟩ := hw
  obtain ⟨rest, -, hsplit⟩ := split_of_hasPrefix hdash hp h
  simp only [List.map_cons, List.map_nil, List.mem_cons, List.not_mem_nil, or_false, not_or] at hmem
  obtain ⟨h1, h2, h3, h4, h5⟩ := hmem
  rw [hsplit, short, if_neg h1, if_neg h2, if_neg h3, if_neg h4, if_neg h5]

theorem flavour_not_short {name : Text} (h : flavours.any (hasPrefix name) = true) :
    short (split name) = false := by
  obtain ⟨p, hp, h⟩ := List.any_eq_true.mp h
  have hw : ∀ p ∈ flavours, '-' ∉ p.toList.dropLast ∧ p.toList = p.toList.dropLast ++ ['-'] ∧
      p.toList.dropLast ∉
        ["debian", "ubuntu", "kali", "openSUSE", "AlmaLinux"].map String.toList := by decide
  exact not_short (hw p hp) h

theorem desktop_not_short {name : Text} (h : desktops.any (hasPrefix name) = true) :
    short (split name) = false := by
  obtain ⟨p, hp, h⟩ := List.any_eq_true.mp h
  have hw : ∀ p ∈ desktops, ∃ w ∈ ["budgie", "gnome", "mate", "unity"], '-' ∉ w.toList ∧
      p.toList = "ubuntu".toList ++ '-' :: (w.toList ++ ['-']) := by decide
  obtain ⟨w, hmem, hdash, hp⟩ := hw p hp
  obtain ⟨rest, rfl⟩ := hasPrefix_iff.mp h
  have hsplit : split (p.toList ++ rest) = "ubuntu".toList :: w.toList :: split rest := by
    rw [hp, List.append_assoc, List.cons_append, List.append_assoc, split_append (by decide)]
    exact congrArg _ (split_append hdash rest)
  rw [hsplit]
  exact decide_eq_false fun hs => hs.2.1 w hmem rfl

/-- A short name is one of a distribution that has them. -/
theorem hasPrefix_of_short {name : Text} (h : short (split name) = true) :
    ∃ p ∈ ["debian-", "ubuntu-", "kali-linux-", "openSUSE-", "AlmaLinux-"],
      hasPrefix name p = true := by
  match hsplit : split name with
  | [] => exact absurd hsplit (split_ne_nil name)
  | dist :: sp =>
      rw [hsplit, short] at h
      split_ifs at h with h1 h2 h3 h4 h5
      · subst h1
        refine ⟨"debian-", by decide, hasPrefix_of_split (by decide) rfl hsplit ?_⟩
        rintro rfl
        cases h
      · subst h2
        refine ⟨"ubuntu-", by decide, hasPrefix_of_split (by decide) rfl hsplit ?_⟩
        rintro rfl
        cases h
      · subst h3
        obtain ⟨hlinux, h⟩ := of_decide_eq_true h
        match sp with
        | [] => cases hlinux
        | linux :: sp =>
            obtain rfl := Option.some.inj hlinux
            obtain ⟨rest, rfl, hrest⟩ := eq_of_split (by decide) hsplit (List.cons_ne_nil _ _)
            obtain ⟨rest, rfl, -⟩ := eq_of_split (by decide) hrest (by rintro rfl; cases h)
            exact ⟨"kali-linux-", by decide, hasPrefix_iff.mpr ⟨rest, rfl⟩⟩
      · subst h4
        refine ⟨"openSUSE-", by decide, hasPrefix_of_split (by decide) rfl hsplit ?_⟩
        rintro rfl
        cases h
      · subst h5
        refine ⟨"AlmaLinux-", by decide, hasPrefix_of_split (by decide) rfl hsplit ?_⟩
        rintro rfl
        cases h

/-- A name of the case `ubuntu-` is not one of a desktop. -/
theorem shortUbuntu_iff {rest : Text}
    (h : ¬ desktops.any (hasPrefix ("ubuntu-".toList ++ rest)) = true) :
    shortUbuntu (split rest) = true ↔ 3 ≤ (split rest).length ∧
      shortWords (dropWord "live" (dropWord "beta" (split rest).tail)) = true := by
  unfold shortUbuntu
  rw [decide_eq_true_iff]
  refine and_congr_right fun h3 => and_iff_right fun w hw hfirst => h ?_
  match hsplit : split rest with
  | [] => exact absurd hsplit (split_ne_nil rest)
  | first :: sp =>
      rw [hsplit] at hfirst h3
      obtain rfl := Option.some.inj hfirst
      have hdash : ∀ w ∈ ["budgie", "gnome", "mate", "unity"], '-' ∉ w.toList ∧
          ∃ p ∈ desktops, p.toList = "ubuntu-".toList ++ (w.toList ++ ['-']) := by decide
      obtain ⟨hdash, p, hp, heq⟩ := hdash w hw
      obtain ⟨rest, rfl, -⟩ := eq_of_split hdash hsplit (by rintro rfl; simp at h3)
      refine List.any_eq_true.mpr ⟨p, hp, hasPrefix_iff.mpr ⟨rest, ?_⟩⟩
      rw [heq, List.append_assoc, List.append_assoc]
      rfl

/-- One case of the switch. -/
theorem reads_case {c q : Prop} [Decidable c] {x y : Option FileInfo}
    (hx : c → (Reads Q x ↔ q)) (hy : ¬ c → (Reads Q y ↔ q)) :
    Reads Q (if c then x else y) ↔ q := by
  split
  next hc => exact hx hc
  next hc => exact hy hc

/-- The switch returns on every name but the short ones. -/
theorem recognize_reads_iff (hf : Q f.path) (name : Text) :
    Reads Q (recognize f name) ↔ short (split name) = false := by
  unfold recognize
  refine reads_case (fun h => ?_) fun _ => ?_
  · exact iff_of_true (centOS_reads hf name) (not_short (w := "CentOS".toList) (by decide) h)
  refine reads_case (fun h => ?_) fun hdebian => ?_
  · obtain ⟨rest, rfl, hsplit⟩ := split_of_hasPrefix (w := "debian".toList) (by decide) rfl h
    rw [debian_reads_iff hf, hsplit]
    rfl
  refine reads_case (fun h => ?_) fun _ => ?_
  · exact iff_of_true (ubuntuFlavour_reads hf name) (flavour_not_short h)
  refine reads_case (fun h => ?_) fun hdesktop => ?_
  · exact iff_of_true (ubuntuDesktop_reads hf name) (desktop_not_short h)
  refine reads_case (fun h => ?_) fun hubuntu => ?_
  · obtain ⟨rest, rfl, hsplit⟩ := split_of_hasPrefix (w := "ubuntu".toList) (by decide) rfl h
    rw [ubuntu_reads_iff hf, hsplit, ← shortUbuntu_iff hdesktop, Bool.not_eq_true]
    rfl
  refine reads_case (fun h => ?_) fun _ => ?_
  · exact iff_of_true (fedora_reads hf name) (not_short (w := "Fedora".toList) (by decide) h)
  refine reads_case (fun h => ?_) fun _ => ?_
  · exact iff_of_true (deepin_reads hf name) (not_short (w := "deepin".toList) (by decide) h)
  refine reads_case (fun h => ?_) fun hkali => ?_
  · obtain ⟨rest, rfl⟩ := hasPrefix_iff.mp h
    have hsplit : split ("kali-linux-".toList ++ rest) =
        "kali".toList :: "linux".toList :: split rest := by
      refine (split_append (w := "kali".toList) (by decide) _).trans (congrArg _ ?_)
      exact split_append (w := "linux".toList) (by decide) rest
    have hshort : short ("kali".toList :: "linux".toList :: split rest) = shortKali (split rest) :=
      Bool.eq_iff_iff.mpr ⟨fun h => (of_decide_eq_true h).2, fun h => decide_eq_true ⟨rfl, h⟩⟩
    rw [kali_reads_iff hf, hsplit, hshort]
  refine reads_case (fun h => ?_) fun hsuse => ?_
  · obtain ⟨rest, rfl, hsplit⟩ := split_of_hasPrefix (w := "openSUSE".toList) (by decide) rfl h
    rw [openSUSE_reads_iff hf, hsplit]
    rfl
  refine reads_case (fun h => ?_) fun _ => ?_
  · exact iff_of_true (archlinux_reads hf name) (not_short (w := "archlinux".toList) (by decide) h)
  refine reads_case (fun h => ?_) fun _ => ?_
  · exact iff_of_true (alpine_reads hf name) (not_short (w := "alpine".toList) (by decide) h)
  refine reads_case (fun h => ?_) fun _ => ?_
  · exact iff_of_true (proxmox_reads hf name) (not_short (w := "proxmox".toList) (by decide) h)
  refine reads_case (fun h => ?_) fun halma => ?_
  · obtain ⟨rest, rfl, hsplit⟩ := split_of_hasPrefix (w := "AlmaLinux".toList) (by decide) rfl h
    rw [almaLinux_reads_iff hf, hsplit]
    rfl
  have hs : short (split name) = false := by
    refine eq_false_of_ne_true fun hs => ?_
    obtain ⟨p, hp, hprefix⟩ := hasPrefix_of_short hs
    simp only [List.mem_cons, List.not_mem_nil, or_false] at hp
    rcases hp with rfl | rfl | rfl | rfl | rfl
    · exact hdebian hprefix
    · exact hubuntu hprefix
    · exact hkali hprefix
    · exact hsuse hprefix
    · exact halma hprefix
  exact iff_of_true (reads_ite (fun _ => texlive_reads hf name) fun _ => reads_some.mpr hf) hs

end

/-! ### The recogniser -/

theorem length_trimSuffix (s e : Text) : s.length ≤ (trimSuffix s e).length + e.length := by
  unfold trimSuffix
  split
  · rw [List.length_take]
    omega
  · omega

theorem combine_ne_nil {a b : Text} (h : a ≠ [] ∨ b ≠ []) : combine [a, b] " ".toList ≠ [] := by
  have hlen : 1 < (([a, b].filter (· ≠ [])).flatMap (· ++ " ".toList)).length := by
    by_cases ha : a = []
    · have hb := h.resolve_left (not_not_intro ha)
      have hpos := List.length_pos_of_ne_nil hb
      simpa [ha, hb] using hpos
    · have hpos := List.length_pos_of_ne_nil ha
      by_cases hb : b = []
      · simpa [ha, hb] using hpos
      · simp [ha, hb]
        omega
  have htrim := length_trimSuffix (([a, b].filter (· ≠ [])).flatMap (· ++ " ".toList)) " ".toList
  rw [show " ".toList.length = 1 from rfl] at htrim
  refine List.ne_nil_of_length_pos ?_
  unfold combine
  omega

/-- A name is shown exactly when a version was read. -/
theorem displayName_ne_nil (f : FileInfo) :
    displayName f ≠ [] ↔ f.majorVersion ≠ [] ∨ f.version ≠ [] := by
  unfold displayName
  split
  next h =>
    refine iff_of_true (List.ne_nil_of_length_pos ?_) h
    dsimp only
    have hpos := List.length_pos_of_ne_nil (combine_ne_nil h)
    generalize combine [f.majorVersion, f.version] " ".toList = version at hpos
    generalize combine [f.arch, f.edition, f.editionType, _] ", ".toList = rest
    have hlen : version.length + 3 ≤
        (version ++ " (".toList ++ rest ++ ")".toList).length := by
      simp
    split
    next =>
      have htrim := length_trimSuffix (version ++ " (".toList ++ rest ++ ")".toList) " ()".toList
      rw [show " ()".toList.length = 3 from rfl] at htrim
      omega
    next => omega
  next h => exact iff_of_false (fun hne => hne rfl) h

end KubeSync.Recognizer

namespace KubeSync

open Recognizer

/-- **Every path.**  The recogniser returns, with the path as it was given and a name exactly when
it has read a version, on every path but those whose file has a short name. -/
theorem recognizer_iff (filepath : Text) :
    (∃ f, recognizer filepath = some f ∧ f.path = filepath ∧
        (f.name ≠ [] ↔ f.majorVersion ≠ [] ∨ f.version ≠ [])) ↔
      short (split (trimSuffix (base filepath) (ext filepath))) = false := by
  unfold recognizer
  rw [← recognize_reads_iff (Q := (· = filepath)) (f := { path := filepath, ext := ext filepath })
    rfl]
  constructor
  · rintro ⟨_, h, hpath, -⟩
    obtain ⟨f, hf, h⟩ := Option.bind_eq_some_iff.mp h
    cases h
    exact ⟨f, hf, hpath⟩
  · rintro ⟨f, hf, hpath⟩
    refine ⟨{ f with name := displayName f }, ?_, hpath, displayName_ne_nil f⟩
    exact Option.bind_eq_some_iff.mpr ⟨f, hf, rfl⟩

theorem path_of_recognizer {filepath : Text} {f : FileInfo} (h : recognizer filepath = some f) :
    f.path = filepath := by
  obtain ⟨g, hg, h⟩ := Option.bind_eq_some_iff.mp h
  cases h
  have hshort := (recognize_reads_iff (Q := fun _ => True) trivial _).mp ⟨g, hg, trivial⟩
  obtain ⟨g', hg', hpath⟩ := (recognize_reads_iff (Q := (· = filepath))
    (f := { path := filepath, ext := ext filepath }) rfl _).mpr hshort
  obtain rfl := Option.some.inj (hg.symm.trans hg')
  exact hpath

/-- An image of AlmaLinux without an edition. -/
theorem almaLinux_latest_panics : recognizer "AlmaLinux-9-latest-x86_64.iso".toList = none := by
  decide

example : recognizer "openSUSE-Tumbleweed-Current.iso".toList = none := by decide

end KubeSync
