import Stackline.Files.Tree
import Stackline.Proofs.Attempt
import Stackline.Proofs.Text.Words

/-!
# Reading what has been written

A path leads to a place, and what stands at the place is read or written.  Several paths may
lead to the same place, so a file is a place and not a path.

Writing a file changes what stands at its place and at no other.  No directory is lost by it,
since a directory is never written over, so every path leads where it led before, and what
has been written is read under the same path.
-/

namespace Stackline
namespace FileTree

/-! ## What stands at a place -/

section Putting

variable {t : FileTree} {place other : List String} {e : Entry}

theorem lookup_map_snd
    (g : List String → Entry → Entry) (entries : List (List String × Entry))
    (place : List String) :
    (entries.map fun x => (x.1, g x.1 x.2)).lookup place = (entries.lookup place).map (g place) := by
  induction entries with
  | nil => rfl
  | cons first entries ih =>
      rw [List.map_cons, List.lookup_cons, List.lookup_cons, ih]
      by_cases hplace : place = first.1
      · simp [hplace]
      · have hno : (place == first.1) = false := beq_eq_false_iff_ne.mpr hplace
        simp only [hno]

theorem put_of_isSome
    (hplace : (t.entries.lookup place).isSome = true) (e : Entry) :
    t.put place e =
      { entries := t.entries.map fun x => (x.1, if x.1 = place then e else x.2) } := by
  have hsame : ∀ x : List String × Entry,
      (if x.1 = place then (x.1, e) else (x.1, x.2)) = (x.1, if x.1 = place then e else x.2) := by
    intro x
    split
    next => rfl
    next => rfl
  rw [put, if_pos hplace]
  exact congrArg FileTree.mk (List.map_congr_left fun x _ => hsame x)

theorem put_of_not_isSome
    (hplace : ¬(t.entries.lookup place).isSome = true) (e : Entry) :
    t.put place e = { entries := t.entries ++ [(place, e)] } := by
  rw [put, if_neg hplace]

theorem lookup_put
    (t : FileTree) (place other : List String) (e : Entry) :
    (t.put place e).entries.lookup other =
      if other = place then some e else t.entries.lookup other := by
  by_cases hplace : (t.entries.lookup place).isSome = true
  · rw [put_of_isSome hplace, lookup_map_snd fun p old => if p = place then e else old]
    by_cases hother : other = place
    · obtain ⟨old, hold⟩ := Option.isSome_iff_exists.mp hplace
      simp [hother, hold]
    · simp [hother]
  · rw [put_of_not_isSome hplace, List.lookup_append]
    by_cases hother : other = place
    · simp [hother, Option.not_isSome_iff_eq_none.mp hplace]
    · have hno : (other == place) = false := beq_eq_false_iff_ne.mpr hother
      simp [hother, List.lookup_cons, hno]

theorem snd_of_mem_put
    {x : List String × Entry} (hx : x ∈ (t.put place e).entries) (hplace : x.1 = place) :
    x.2 = e := by
  by_cases hthere : (t.entries.lookup place).isSome = true
  · rw [put_of_isSome hthere] at hx
    obtain ⟨y, -, rfl⟩ := List.mem_map.mp hx
    exact if_pos hplace
  · rw [put_of_not_isSome hthere] at hx
    rcases List.mem_append.mp hx with hx | hx
    · have hnone := List.lookup_eq_none_iff.mp (Option.not_isSome_iff_eq_none.mp hthere) x hx
      rw [hplace] at hnone
      exact absurd hnone (by simp)
    · rw [List.mem_singleton.mp hx]

/-- Putting the same there again changes nothing. -/
theorem put_put_self
    (t : FileTree) (place : List String) (e : Entry) :
    (t.put place e).put place e = t.put place e := by
  have hthere : ((t.put place e).entries.lookup place).isSome = true := by
    rw [lookup_put, if_pos rfl]
    rfl
  have hkept : ∀ x ∈ (t.put place e).entries, (x.1, if x.1 = place then e else x.2) = id x := by
    intro x hx
    split
    next hplace => rw [← snd_of_mem_put hx hplace, id]
    next => rfl
  rw [put_of_isSome hthere, List.map_congr_left hkept, List.map_id]

theorem entry?_put_of_ne
    (hother : other ≠ place) :
    FileTree.entry? (t.put place e) other = t.entry? other := by
  unfold entry?
  rw [lookup_put, if_neg hother]

theorem isAbove_eq_false
    (hplace : t.entry? place ≠ some .directory) :
    isAbove place = false := by
  rw [← Bool.not_eq_true]
  intro habove
  exact hplace (if_pos habove)

theorem entry?_put_self
    (hplace : t.entry? place ≠ some .directory) :
    FileTree.entry? (t.put place e) place = some e := by
  unfold entry?
  rw [isAbove_eq_false hplace, lookup_put, if_pos rfl]
  rfl

theorem entry?_put_of_directory
    (hplace : t.entry? place ≠ some .directory) (hother : t.entry? other = some .directory) :
    FileTree.entry? (t.put place e) other = some .directory := by
  rw [entry?_put_of_ne, hother]
  rintro rfl
  exact hplace hother

end Putting

/-! ## Where a path leads -/

/-- The path leads to a place.  Something may stand there or nothing. -/
structure LeadsTo (t : FileTree) (path : String) (place : List String) : Prop where
  ne_empty : path ≠ ""
  walk_eq : t.walk [] (names path) = .ok place

/-- Where a name leads from a directory. -/
def next (place : List String) (name : String) : List String :=
  if name = "" ∨ name = "." then place
  else if name = ".." then parent place
  else place ++ [name]

section Walking

variable {t t' : FileTree} {path name : String} {place spot ns : List String}

/-- One step is made from a directory. -/
theorem walk_cons_eq_ok_iff :
    t.walk place (name :: ns) = .ok spot ↔
      t.entry? place = some .directory ∧ t.walk (next place name) ns = .ok spot := by
  rw [walk]
  split
  next hentry => simp [hentry]
  next content hentry => simp [hentry]
  next hentry =>
    have hnext : (if name = "" ∨ name = "." then t.walk place ns
        else if name = ".." then t.walk (parent place) ns
        else t.walk (place ++ [name]) ns) = t.walk (next place name) ns := by
      unfold next
      split
      next => rfl
      next =>
        split
        next => rfl
        next => rfl
    rw [hnext]
    exact (and_iff_right hentry).symm

theorem walk_append_eq_ok_iff
    {more : List String} :
    t.walk place (ns ++ more) = .ok spot ↔
      ∃ middle, t.walk place ns = .ok middle ∧ t.walk middle more = .ok spot := by
  induction ns generalizing place with
  | nil => simp [walk]
  | cons name ns ih =>
      simp only [List.cons_append, walk_cons_eq_ok_iff, ih, exists_and_left, and_assoc]

/-- A path leads where it led as long as no directory is lost. -/
theorem walk_of_directories
    (hdirectories : ∀ p, t.entry? p = some .directory → t'.entry? p = some .directory)
    (hwalk : t.walk place ns = .ok spot) :
    t'.walk place ns = .ok spot := by
  induction ns generalizing place with
  | nil => exact hwalk
  | cons name ns ih =>
      obtain ⟨hentry, hrest⟩ := walk_cons_eq_ok_iff.mp hwalk
      exact walk_cons_eq_ok_iff.mpr ⟨hdirectories place hentry, ih hrest⟩

theorem LeadsTo.of_directories
    (hdirectories : ∀ p, t.entry? p = some .directory → t'.entry? p = some .directory)
    (hpath : t.LeadsTo path place) :
    t'.LeadsTo path place :=
  ⟨hpath.ne_empty, walk_of_directories hdirectories hpath.walk_eq⟩

end Walking

/-! ## Reading and writing -/

section Files

variable {t t' : FileTree} {path : String} {place : List String} {content : ByteArray}

theorem LeadsTo.read_eq
    (hpath : t.LeadsTo path place) :
    t.read path =
      match t.entry? place with
      | some (.file content) => .ok content
      | some .directory => .error .isDirectory
      | none => .error .notFound := by
  have hne : ¬path.isEmpty = true := by
    rw [String.isEmpty_iff]
    exact hpath.ne_empty
  simp only [read, if_neg hne, hpath.walk_eq]
  rfl

/-- A list that does not end in empty names is what is left of itself. -/
theorem eq_concat_of_getLast?
    {given : List String} {name : String}
    (hlast : (given.reverse.dropWhile (· == "")).reverse.getLast? = some name)
    (hlength : ¬(given.reverse.dropWhile (· == "")).reverse.length < given.length) :
    (given.reverse.dropWhile (· == "")).reverse = given ∧ name ≠ "" ∧
      ∃ dirs, given = dirs ++ [name] := by
  have hprefix : (given.reverse.dropWhile (· == "")).reverse <+: given := by
    have hsuffix : given.reverse.dropWhile (· == "") <:+ given.reverse :=
      List.dropWhile_suffix (· == "")
    rw [← List.reverse_prefix, List.reverse_reverse] at hsuffix
    exact hsuffix
  have hwhole := hprefix.eq_of_length_le (Nat.le_of_not_lt hlength)
  have hdirs := List.getLast?_eq_some_iff.mp hlast
  rw [hwhole] at hdirs
  rw [List.getLast?_reverse] at hlast
  have hname := Text.eq_false_of_head?_dropWhile hlast
  exact ⟨hwhole, beq_eq_false_iff_ne.mp hname, hdirs⟩

/-- Under a path a file can be written if the last of its names is no name of a directory,
and those before it lead to one. -/
theorem target_eq_ok_iff :
    t.target path = .ok place ↔
      path ≠ "" ∧ ∃ dirs name above, names path = dirs ++ [name] ∧
        (name ≠ "" ∧ name ≠ "." ∧ name ≠ "..") ∧ t.walk [] dirs = .ok above ∧
        t.entry? above = some .directory ∧ above ++ [name] = place ∧
        t.entry? place ≠ some .directory := by
  constructor
  · intro htarget
    unfold target at htarget
    by_cases hempty : path.isEmpty = true
    · rw [if_pos hempty] at htarget
      exact absurd htarget nofun
    · simp only [if_neg hempty] at htarget
      obtain ⟨above, hwalk, htarget⟩ := bind_eq_ok_iff.mp htarget
      split at htarget
      next => exact absurd htarget nofun
      next => exact absurd htarget nofun
      next => exact absurd htarget nofun
      next name habove hlast =>
        split at htarget
        next => exact absurd htarget nofun
        next hrefused =>
          split at htarget
          next => exact absurd htarget nofun
          next hplace =>
            obtain ⟨hlength, hname⟩ := not_or.mp hrefused
            obtain ⟨hwhole, hne, dirs, hdirs⟩ := eq_concat_of_getLast? hlast hlength
            rw [hwhole, hdirs, List.dropLast_concat] at hwalk
            obtain rfl := pure_eq_ok_iff.mp htarget
            exact ⟨mt String.isEmpty_iff.mpr hempty, dirs, name, above, hdirs,
              ⟨hne, not_or.mp hname⟩, hwalk, habove, rfl, hplace⟩
  · rintro ⟨hne, dirs, name, above, hnames, hname, hwalk, habove, rfl, hplace⟩
    have hne' : ¬path.isEmpty = true := by rwa [String.isEmpty_iff]
    have hwhole : ((dirs ++ [name]).reverse.dropWhile (· == "")).reverse = dirs ++ [name] := by
      simp [hname.1]
    have hname' : ¬((dirs ++ [name]).length < (dirs ++ [name]).length ∨
        name = "." ∨ name = "..") := by
      simp [hname.2]
    simp only [target, if_neg hne', hnames, hwhole, List.dropLast_concat, List.getLast?_concat,
      hwalk, bind, Except.bind, habove, if_neg hname']
    rfl

theorem leadsTo_of_target
    (htarget : t.target path = .ok place) :
    t.LeadsTo path place := by
  obtain ⟨hne, dirs, name, above, hnames, hname, hwalk, habove, rfl, -⟩ :=
    target_eq_ok_iff.mp htarget
  have hnext : next above name = above ++ [name] := by simp [next, hname]
  refine ⟨hne, ?_⟩
  rw [hnames, walk_append_eq_ok_iff]
  refine ⟨above, hwalk, walk_cons_eq_ok_iff.mpr ⟨habove, ?_⟩⟩
  rw [hnext]
  rfl

theorem entry?_of_target
    (htarget : t.target path = .ok place) :
    t.entry? place ≠ some .directory := by
  obtain ⟨-, dirs, name, above, -, -, -, -, -, hplace⟩ := target_eq_ok_iff.mp htarget
  exact hplace

/-- A file that has been written can be written again. -/
theorem target_put
    (htarget : t.target path = .ok place) (content : ByteArray) :
    (t.put place (.file content)).target path = .ok place := by
  have hplace := entry?_of_target htarget
  obtain ⟨hne, dirs, name, above, hnames, hname, hwalk, habove, hspot, -⟩ :=
    target_eq_ok_iff.mp htarget
  refine target_eq_ok_iff.mpr ⟨hne, dirs, name, above, hnames, hname, ?_, ?_, hspot, ?_⟩
  · exact walk_of_directories (fun p hp => entry?_put_of_directory hplace hp) hwalk
  · exact entry?_put_of_directory hplace habove
  · rw [entry?_put_self hplace]
    exact nofun

theorem write_eq_ok_iff :
    t.write path content = .ok t' ↔
      ∃ place, t.target path = .ok place ∧ t.put place (.file content) = t' := by
  rw [write, bind_eq_ok_iff]
  simp only [pure_eq_ok_iff]

/-- What writing a file does: the file is at the place to which the path leads, no other place
is touched, what was written is read, and writing it again changes nothing. -/
theorem exists_place_of_write
    (hwrite : t.write path content = .ok t') :
    ∃ place, t.LeadsTo path place ∧
      (∀ other, other ≠ place → t'.entry? other = t.entry? other) ∧
      (∀ path' other, t.LeadsTo path' other → other ≠ place → t'.read path' = t.read path') ∧
      t'.read path = .ok content ∧ t'.write path content = .ok t' := by
  obtain ⟨place, htarget, rfl⟩ := write_eq_ok_iff.mp hwrite
  have hplace := entry?_of_target htarget
  have hpath := leadsTo_of_target htarget
  have hkept : ∀ p, t.entry? p = some .directory →
      FileTree.entry? (t.put place (.file content)) p = some .directory :=
    fun p hp => entry?_put_of_directory hplace hp
  refine ⟨place, hpath, fun other hother => entry?_put_of_ne hother, ?_, ?_, ?_⟩
  · intro path' other hpath' hother
    rw [(hpath'.of_directories hkept).read_eq, hpath'.read_eq, entry?_put_of_ne hother]
  · rw [(hpath.of_directories hkept).read_eq, entry?_put_self hplace]
  · exact write_eq_ok_iff.mpr ⟨place, target_put htarget content, put_put_self t place _⟩

end Files

/-! ## Running on a tree -/

section Running

variable {α γ : Type}

theorem run_bind
    (x : StateM FileTree α) (next : α → StateM FileTree γ) (t : FileTree) :
    (x >>= next).run t = (next (x.run t).1).run (x.run t).2 :=
  rfl

theorem run_readFile
    (path : String) (t : FileTree) :
    (MonadFiles.readFile path : StateM FileTree (Except FileFault ByteArray)).run t =
      (t.read path, t) :=
  rfl

theorem run_writeFile
    (path : String) (content : ByteArray) (t : FileTree) :
    (MonadFiles.writeFile path content : StateM FileTree (Except FileFault Unit)).run t =
      match t.write path content with
      | .ok t' => (.ok (), t')
      | .error fault => (.error fault, t) := by
  change (match t.write path content with
    | .ok t' => (do set t'; return .ok () : StateM FileTree (Except FileFault Unit))
    | .error fault => return .error fault).run t = _
  rcases t.write path content with fault | t'
  · rfl
  · rfl

theorem run_readText
    (path : String) (t : FileTree) :
    (readText path : StateM FileTree (Except FileFault String)).run t =
      (t.read path >>= decodeText, t) := by
  rw [readText, run_bind, run_readFile]
  rcases t.read path with fault | bytes
  · rfl
  · rfl

end Running

end FileTree
end Stackline
