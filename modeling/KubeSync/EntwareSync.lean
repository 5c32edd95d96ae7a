import KubeSync.Downloads
import KubeSync.Latest
import KubeSync.Recognizer
import Mathlib.Data.List.Induction

/-! # The directories of `entware.sh`

`fileSync` of `entware.sh`, which brings one directory up to date: it compares the index of the
directory with the one from the last sync line by line, downloads what the new lines name, and
removes what the old lines name that are gone.

* An index is a list of lines.  The index that `wget` leaves may be cut off or empty, and the files
  that it leaves are inputs too.
* A list of items is split into words, as the shell does it.  The expansion of `*`, `?` and `[` in
  them is left out, and so are names that `wget` writes in another way than they stand in the link.
* The index of the last sync is a part of the state of its own, apart from the files.
* The removal comes behind the downloads, so that an item whose line changes is downloaded and then
  removed.  `in_sync_iff` says over any number of syncs which of the listed files are there: those
  that have lost no line since they have last got one. -/

namespace KubeSync.Entware

open Downloads (File Files put unlink)
open History (Since since_concat not_since_nil)

/-! ### Lines -/

/-- `sed -E -n -e 's#^<a href="([^/]+)".*#\1#p'`: the longest text that fits is taken. -/
def hrefOf (line : String) : Option String :=
  if Recognizer.hasPrefix line.toList "<a href=\"" then
    match ((line.toList.drop 9).takeWhile (· ≠ '/')).reverse.dropWhile (· ≠ '"') with
    | _ :: c :: cs => some (String.ofList (c :: cs).reverse)
    | _ => none
  else none

/-- The words of an item. -/
def words (item : String) : List String :=
  ((item.toList.splitOnP fun c => c = ' ' || c = '\t').filter (· ≠ [])).map String.ofList

/-- The files that a line names. -/
def names (line : String) : List String := (hrefOf line).toList.flatMap words

def bashLine : String := "<a href=\"bash_5.ipk\">bash_5.ipk</a> 12-Jan-2024 10:00 4K"

example : names bashLine = ["bash_5.ipk"] := by decide +kernel

/-- `grep -Fxvf patterns lines`. -/
def grepFxvf (patterns lines : List String) : List String := lines.filter (· ∉ patterns)

/-! ### `fileSync` -/

/-- A directory, with the index of the last sync. -/
structure Dir where
  files : Files
  presentIndex : Option (List String) := none

/-- `CURRENT_INDEX`: without an index of the last sync it is one empty line. -/
def Dir.currentIndex (d : Dir) : List String := d.presentIndex.getD [""]

/-- What a sync is answered: the index, and what the download of an item leaves. -/
structure Sync where
  latestIndex : List String
  fetch : String → Option File

def listToDownload (current : List String) (e : Sync) : List String :=
  (grepFxvf current e.latestIndex).flatMap names

def listToRemove (current : List String) (e : Sync) : List String :=
  (grepFxvf e.latestIndex current).flatMap names

def download (e : Sync) (files : Files) (item : String) : Files :=
  Function.update files item (e.fetch item)

def fileSync (d : Dir) (e : Sync) : Dir :=
  let files := (listToDownload d.currentIndex e).foldl (download e) d.files
  let files := (listToRemove d.currentIndex e).foldl unlink files
  { files, presentIndex := some e.latestIndex }

/-- One sync behind another. -/
def syncs (d : Dir) (es : List Sync) : Dir := es.foldl fileSync d

/-! ### One sync -/

variable {d : Dir} {e : Sync} {es : List Sync} {item : String}

/-- A line that names the item is new. -/
def Gains (item : String) (current latest : List String) : Prop :=
  ∃ line ∈ latest, line ∉ current ∧ item ∈ names line

/-- A line that names the item is gone. -/
def Loses (item : String) (current latest : List String) : Prop :=
  ∃ line ∈ current, line ∉ latest ∧ item ∈ names line

instance (item : String) (current latest : List String) : Decidable (Gains item current latest) :=
  inferInstanceAs (Decidable (∃ line ∈ latest, line ∉ current ∧ item ∈ names line))

instance (item : String) (current latest : List String) : Decidable (Loses item current latest) :=
  inferInstanceAs (Decidable (∃ line ∈ current, line ∉ latest ∧ item ∈ names line))

theorem mem_grep {patterns lines : List String} :
    item ∈ (grepFxvf patterns lines).flatMap names ↔ Gains item patterns lines := by
  unfold grepFxvf Gains
  rw [List.mem_flatMap]
  constructor
  · rintro ⟨line, hline, hitem⟩
    obtain ⟨hmem, hnew⟩ := List.mem_filter.mp hline
    exact ⟨line, hmem, of_decide_eq_true hnew, hitem⟩
  · rintro ⟨line, hmem, hnew, hitem⟩
    exact ⟨line, List.mem_filter.mpr ⟨hmem, decide_eq_true hnew⟩, hitem⟩

theorem foldl_download (items : List String) (files : Files) :
    items.foldl (download e) files item = if item ∈ items then e.fetch item else files item := by
  induction items generalizing files with
  | nil => rfl
  | cons x items ih =>
      rw [List.foldl_cons, ih]
      unfold download
      by_cases hx : item = x
      · subst hx
        simp
      · simp [hx]

theorem foldl_unlink (items : List String) (files : Files) :
    items.foldl unlink files item = if item ∈ items then none else files item := by
  induction items generalizing files with
  | nil => rfl
  | cons x items ih =>
      rw [List.foldl_cons, ih]
      unfold unlink
      by_cases hx : item = x
      · subst hx
        simp
      · simp [hx]

/-- An item that has lost a line is gone, whether it has got another one or not. -/
theorem lost_line_removes (hlost : Loses item d.currentIndex e.latestIndex) :
    (fileSync d e).files item = none := by
  have hremove : item ∈ listToRemove d.currentIndex e := mem_grep.mpr hlost
  unfold fileSync
  dsimp only
  rw [foldl_unlink, if_pos hremove]

/-- The line of a file changes, and the file is gone, though it was downloaded again. -/
example : (fileSync (fileSync ⟨fun _ => none, none⟩ ⟨[bashLine], fun _ => some ⟨[1], 0⟩⟩)
    ⟨["<a href=\"bash_5.ipk\">bash_5.ipk</a> 13-Jan-2024 10:00 5K"], fun _ => some ⟨[2], 0⟩⟩).files
      "bash_5.ipk" = none :=
  lost_line_removes (by decide +kernel)

/-- What a sync leaves of an item that has lost no line. -/
theorem fileSync_kept (hlost : ¬ Loses item d.currentIndex e.latestIndex) :
    (fileSync d e).files item =
      if item ∈ listToDownload d.currentIndex e then e.fetch item else d.files item := by
  have hremove : item ∉ listToRemove d.currentIndex e := fun hmem => hlost (mem_grep.mp hmem)
  unfold fileSync
  dsimp only
  rw [foldl_unlink, if_neg hremove, foldl_download]

theorem fileSync_present (hok : ∀ item, e.fetch item ≠ none) :
    (fileSync d e).files item ≠ none ↔
      ¬ Loses item d.currentIndex e.latestIndex ∧
        (Gains item d.currentIndex e.latestIndex ∨ d.files item ≠ none) := by
  by_cases hlost : Loses item d.currentIndex e.latestIndex
  · rw [lost_line_removes hlost]
    exact iff_of_false (· rfl) fun h => h.1 hlost
  have hdownload : item ∈ listToDownload d.currentIndex e ↔
      Gains item d.currentIndex e.latestIndex := mem_grep
  rw [fileSync_kept hlost, and_iff_right hlost]
  by_cases hgained : Gains item d.currentIndex e.latestIndex
  · rw [if_pos (hdownload.mpr hgained)]
    exact iff_of_true (hok item) (.inl hgained)
  · rw [if_neg fun hmem => hgained (hdownload.mp hmem), or_iff_right hgained]

/-! ### Any number of syncs -/

/-- The two indexes that each sync compares. -/
def changes (current : List String) : List Sync → List (List String × List String)
  | [] => []
  | e :: es => (current, e.latestIndex) :: changes e.latestIndex es

theorem syncs_concat : syncs d (es ++ [e]) = fileSync (syncs d es) e := by
  unfold syncs
  rw [List.foldl_append]
  rfl

theorem changes_concat (d : Dir) (es : List Sync) (e : Sync) :
    changes d.currentIndex (es ++ [e]) =
      changes d.currentIndex es ++ [((syncs d es).currentIndex, e.latestIndex)] := by
  induction es generalizing d with
  | nil => rfl
  | cons e' es ih => exact congrArg (_ :: ·) (ih (fileSync d e'))

/-- A directory before its first sync. -/
def fresh : Dir where
  files := fun _ => none

/-- The item has got a line, and has lost none since. -/
def Steady (item : String) (es : List Sync) : Prop :=
  Since (fun c => Gains item c.1 c.2) (fun c => ¬ Loses item c.1 c.2)
    (changes fresh.currentIndex es)

/-- Which files are there, where every download succeeds. -/
theorem syncs_present (hok : ∀ e ∈ es, ∀ item, e.fetch item ≠ none) :
    (syncs fresh es).files item ≠ none ↔ Steady item es := by
  unfold Steady
  induction es using List.reverseRecOn with
  | nil => exact iff_of_false (· rfl) not_since_nil
  | append_singleton es e ih =>
      have hlast : ∀ item, e.fetch item ≠ none := hok e (by simp)
      have hih := ih fun e' he' => hok e' (List.mem_append_left _ he')
      rw [syncs_concat, fileSync_present hlast, changes_concat, since_concat, hih]

/-- The index of the last sync names the item. -/
def Listed (d : Dir) (item : String) : Prop := ∃ line ∈ d.currentIndex, item ∈ names line

/-- Every listed file is there. -/
def InSync (d : Dir) : Prop := ∀ item, Listed d item → d.files item ≠ none

/-- After any number of syncs of a new directory, in which every download succeeds, the files that
the index lists are all there exactly when each of them has lost no line of an index since it has
last got one: a file whose line changes, with its size or its date, is not. -/
theorem in_sync_iff (hok : ∀ e ∈ es, ∀ item, e.fetch item ≠ none) :
    InSync (syncs fresh es) ↔ ∀ item, Listed (syncs fresh es) item → Steady item es :=
  forall₂_congr fun _ _ => syncs_present hok

def zshLine : String := "<a href=\"zsh_5.ipk\">zsh_5.ipk</a> 12-Jan-2024 10:00 4K"

/-- An index of one file, and one with another file behind it. -/
def growing : List Sync :=
  [⟨[bashLine], fun _ => some ⟨[1], 0⟩⟩, ⟨[bashLine, zshLine], fun _ => some ⟨[2], 0⟩⟩]

theorem in_sync_growing : InSync (syncs fresh growing) := by
  have hok : ∀ e ∈ growing, ∀ item, e.fetch item ≠ none := by
    intro e he item
    rcases List.mem_cons.mp he with rfl | he
    · exact Option.some_ne_none _
    · rw [List.mem_singleton.mp he]
      exact Option.some_ne_none _
  refine (in_sync_iff hok).mpr fun item hlisted => ?_
  obtain ⟨line, hline, hitem⟩ := hlisted
  have hbash : names bashLine = ["bash_5.ipk"] := by decide +kernel
  have hzsh : names zshLine = ["zsh_5.ipk"] := by decide +kernel
  rcases List.mem_cons.mp hline with rfl | hline
  · rw [hbash] at hitem
    rw [List.mem_singleton.mp hitem]
    refine ⟨[], _, _, rfl, ?_, ?_⟩
    · decide +kernel
    · decide +kernel
  · rw [List.mem_singleton.mp hline, hzsh] at hitem
    rw [List.mem_singleton.mp hitem]
    refine ⟨[_], _, _, rfl, ?_, ?_⟩
    · decide +kernel
    · decide +kernel

end KubeSync.Entware
