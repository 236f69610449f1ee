import Stackline.Value.Standard

/-!
# Least and greatest arguments

The functions that look for an extreme go along their arguments once, and compare each of
them with nothing but the best one so far.  On integers and strings this is enough.  The
best one so far beats all that came before it and is beaten by none that came after it, so
in the end it is the first of the arguments that are beaten by none.

Two integers or two strings that do not beat each other are the same, so it does not matter
in which order the arguments are given.  An argument of another kind is never passed over,
since the best one keeps the kind of the first argument and is compared with all others.
-/

namespace Stackline

variable {β : Type}

namespace Value

/-! ## The order of integers and strings -/

/-- The first value is smaller: an integer by what it stands for, a string by its bytes, of
which the first ones that differ decide. -/
inductive Smaller : Value β → Value β → Prop where
  | ints {m n : Int64} (hlt : m.toInt < n.toInt) : Smaller (.int m) (.int n)
  | strs {s t : String} (hlt : s.toUTF8.data.toList < t.toUTF8.data.toList) :
      Smaller (.str s) (.str t)

theorem smaller_ints_iff
    {m n : Int64} :
    Smaller (.int m : Value β) (.int n) ↔ m.toInt < n.toInt :=
  ⟨fun | .ints hlt => hlt, .ints⟩

theorem smaller_strs_iff
    {s t : String} :
    Smaller (.str s : Value β) (.str t) ↔ s.toUTF8.data.toList < t.toUTF8.data.toList :=
  ⟨fun | .strs hlt => hlt, .strs⟩

/-- Both values are integers, or both are strings. -/
inductive Alike : Value β → Value β → Prop where
  | ints (m n : Int64) : Alike (.int m) (.int n)
  | strs (s t : String) : Alike (.str s) (.str t)

theorem Alike.symm
    {u v : Value β} (huv : Alike u v) :
    Alike v u := by
  match huv with
  | .ints m n => exact .ints n m
  | .strs s t => exact .strs t s

theorem alike_of_kind
    {u v : Value β} {k : Kind} (hk : k = .int ∨ k = .str) (hu : u.kind = k)
    (hv : v.kind = k) :
    Alike u v := by
  subst hu
  match u, v, hk, hv with
  | .int m, .int n, _, _ => exact .ints m n
  | .str s, .str t, _, _ => exact .strs s t

theorem Smaller.trans
    {u v w : Value β} (huv : Smaller u v) (hvw : Smaller v w) :
    Smaller u w := by
  match huv, hvw with
  | .ints huv, .ints hvw => exact .ints (Int.lt_trans huv hvw)
  | .strs huv, .strs hvw => exact .strs (List.lt_trans huv hvw)

theorem Smaller.asymm
    {u v : Value β} (huv : Smaller u v) :
    ¬Smaller v u := by
  intro hvu
  match huv, hvu with
  | .ints huv, .ints hvu => exact Int.lt_asymm huv hvu
  | .strs huv, .strs hvu => exact List.lt_asymm huv hvu

/-- Strings with the same bytes are the same. -/
theorem str_eq_of_bytes_eq
    {s t : String} (hbytes : s.toUTF8.data.toList = t.toUTF8.data.toList) :
    s = t := by
  apply String.toByteArray_inj.mp
  apply ByteArray.ext
  exact Array.toList_inj.mp hbytes

theorem Alike.smaller_or_eq_or_smaller
    {u v : Value β} (huv : Alike u v) :
    Smaller u v ∨ u = v ∨ Smaller v u := by
  match huv with
  | .ints m n =>
      rcases Int.lt_trichotomy m.toInt n.toInt with hlt | heq | hgt
      · exact .inl (.ints hlt)
      · exact .inr (.inl (congrArg Value.int (Int64.toInt_inj.mp heq)))
      · exact .inr (.inr (.ints hgt))
  | .strs s t =>
      by_cases hlt : s.toUTF8.data.toList < t.toUTF8.data.toList
      · exact .inl (.strs hlt)
      · by_cases hgt : t.toUTF8.data.toList < s.toUTF8.data.toList
        · exact .inr (.inr (.strs hgt))
        · have hbytes := List.le_antisymm (List.not_lt.mp hgt) (List.not_lt.mp hlt)
          exact .inr (.inl (congrArg Value.str (str_eq_of_bytes_eq hbytes)))

end Value

namespace Standard

open Value

/-! ## Comparing integers and strings -/

theorem compare_bytes_eq_lt_iff
    {as bs : List UInt8} :
    compare as bs = .lt ↔ as < bs := by
  induction as generalizing bs with
  | nil =>
      match bs with
      | [] => simp
      | b :: bs => simp
  | cons a as ih =>
      match bs with
      | [] => simp
      | b :: bs =>
          rw [List.compare_cons_cons, Ordering.then_eq_lt, Std.compare_eq_lt,
            Std.LawfulEqOrd.compare_eq_iff_eq, ih, List.cons_lt_cons_iff]

theorem exists_compare?_of_alike
    {u v : Value β} (huv : Alike u v) :
    ∃ order, compare? u v = some order := by
  match huv with
  | .ints _ _ => exact ⟨_, rfl⟩
  | .strs _ _ => exact ⟨_, rfl⟩

theorem compare?_eq_lt_iff
    {u v : Value β} (huv : Alike u v) :
    compare? u v = some .lt ↔ Smaller u v := by
  match huv with
  | .ints m n => rw [compare?, Option.some.injEq, Std.compare_eq_lt, smaller_ints_iff]
  | .strs s t =>
      rw [compare?, Option.some.injEq, Array.compare_eq_compare_toList, compare_bytes_eq_lt_iff,
        smaller_strs_iff]

/-- A value is greater than another one if the other one is smaller. -/
theorem compare?_eq_gt_iff_swap
    {u v : Value β} (huv : Alike u v) :
    compare? u v = some .gt ↔ compare? v u = some .lt := by
  cases huv with
  | ints | strs =>
      rw [compare?, compare?, Option.some.injEq, Option.some.injEq, Std.OrientedCmp.gt_iff_lt]

theorem compare?_eq_gt_iff
    {u v : Value β} (huv : Alike u v) :
    compare? u v = some .gt ↔ Smaller v u := by
  rw [compare?_eq_gt_iff_swap huv, compare?_eq_lt_iff huv.symm]

/-- An integer and a string have no order. -/
theorem compare?_of_kind_ne
    {u v : Value β} (hu : u.kind = .int ∨ u.kind = .str) (hv : v.kind = .int ∨ v.kind = .str)
    (hne : u.kind ≠ v.kind) :
    compare? u v = none := by
  match u, v, hu, hv with
  | .int _, .int _, _, _ => exact absurd rfl hne
  | .int _, .str _, _, _ => rfl
  | .str _, .int _, _, _ => rfl
  | .str _, .str _, _, _ => exact absurd rfl hne

/-- The values that win against others are those for which comparing gives the wanted
result, and they win in an orderly way. -/
structure Decides (wanted : Ordering) (beats : Value β → Value β → Prop) : Prop where
  compare?_iff : ∀ {u v}, Alike u v → (compare? u v = some wanted ↔ beats u v)
  trans : ∀ {u v w}, beats u v → beats v w → beats u w
  asymm : ∀ {u v}, beats u v → ¬beats v u
  beats_or_eq_or_beats : ∀ {u v}, Alike u v → beats u v ∨ u = v ∨ beats v u

theorem decides_lt :
    Decides (β := β) .lt Smaller where
  compare?_iff := compare?_eq_lt_iff
  trans := Smaller.trans
  asymm := Smaller.asymm
  beats_or_eq_or_beats := Alike.smaller_or_eq_or_smaller

theorem decides_gt :
    Decides (β := β) .gt fun u v => Smaller v u where
  compare?_iff := compare?_eq_gt_iff
  trans huv hvw := hvw.trans huv
  asymm := Smaller.asymm
  beats_or_eq_or_beats huv := by
    rcases huv.smaller_or_eq_or_smaller with hlt | heq | hgt
    · exact .inr (.inr hlt)
    · exact .inr (.inl heq)
    · exact .inl hgt

/-! ## The best one so far -/

/-- Of the values seen, `best` beats all that came before it and is beaten by none that came
after it. -/
def Leads (beats : Value β → Value β → Prop) (seen : List (Value β)) (best : Value β) : Prop :=
  ∃ before after, seen = before ++ best :: after ∧
    (∀ u ∈ before, beats best u) ∧ ∀ u ∈ after, u = best ∨ beats best u

section Leading

variable {wanted : Ordering} {beats : Value β → Value β → Prop} {seen : List (Value β)}
  {best v : Value β}

theorem leads_singleton
    (beats : Value β → Value β → Prop) (v : Value β) :
    Leads beats [v] v :=
  ⟨[], [], rfl, List.forall_mem_nil _, List.forall_mem_nil _⟩

theorem Leads.eq_or_beats
    (hleads : Leads beats seen best) {u : Value β} (hu : u ∈ seen) :
    u = best ∨ beats best u := by
  obtain ⟨before, after, rfl, hbefore, hafter⟩ := hleads
  rcases List.mem_append.mp hu with hu | hu
  · exact .inr (hbefore u hu)
  · rcases List.mem_cons.mp hu with rfl | hu
    · exact .inl rfl
    · exact hafter u hu

theorem Leads.mem
    (hleads : Leads beats seen best) :
    best ∈ seen := by
  obtain ⟨before, after, rfl, -, -⟩ := hleads
  exact List.mem_append_right before List.mem_cons_self

/-- A value that beats the best one beats all that were seen. -/
theorem Leads.overtaken
    (hdecides : Decides wanted beats) (hleads : Leads beats seen best) (hbeats : beats v best) :
    Leads beats (seen ++ [v]) v := by
  refine ⟨seen, [], rfl, ?_, List.forall_mem_nil _⟩
  intro u hu
  rcases hleads.eq_or_beats hu with rfl | hbest
  · exact hbeats
  · exact hdecides.trans hbeats hbest

theorem Leads.kept
    (hleads : Leads beats seen best) (hv : v = best ∨ beats best v) :
    Leads beats (seen ++ [v]) best := by
  obtain ⟨before, after, rfl, hbefore, hafter⟩ := hleads
  refine ⟨before, after ++ [v], by simp, hbefore, ?_⟩
  intro u hu
  rcases List.mem_append.mp hu with hu | hu
  · exact hafter u hu
  · rw [List.mem_singleton.mp hu]
    exact hv

/-- One more value is compared with the best one. -/
theorem Leads.step
    (hdecides : Decides wanted beats) (hleads : Leads beats seen best) (halike : Alike v best)
    {order : Ordering} (horder : compare? v best = some order) :
    Leads beats (seen ++ [v]) (if order = wanted then v else best) := by
  by_cases hwanted : order = wanted
  · rw [if_pos hwanted]
    apply hleads.overtaken hdecides
    rw [← hdecides.compare?_iff halike, horder, hwanted]
  · rw [if_neg hwanted]
    apply hleads.kept
    rcases hdecides.beats_or_eq_or_beats halike with hbeats | heq | hbest
    · have hsame := (hdecides.compare?_iff halike).mpr hbeats
      rw [horder, Option.some.injEq] at hsame
      exact absurd hsame hwanted
    · exact .inl heq
    · exact .inr hbest

/-- No value that was seen beats the best one. -/
theorem Leads.not_beats
    (hdecides : Decides wanted beats) (hleads : Leads beats seen best) {u : Value β}
    (hu : u ∈ seen) :
    ¬beats u best := by
  intro hbeats
  rcases hleads.eq_or_beats hu with rfl | hbest
  · exact hdecides.asymm hbeats hbeats
  · exact hdecides.asymm hbeats hbest

end Leading

/-! ## Going along the arguments -/

section Going

variable {wanted : Ordering} {beats : Value β → Value β → Prop} {k : Kind}

theorem extremeFrom_cons
    {f : Standard} {best v : Value β} {order : Ordering}
    (horder : compare? v best = some order) (rest : List (Value β)) :
    extremeFrom f wanted best (v :: rest) =
      extremeFrom f wanted (if order = wanted then v else best) rest := by
  rw [extremeFrom, horder]

theorem kind_next
    {best v : Value β} (hbest : best.kind = k) (hv : v.kind = k) (order : Ordering) :
    (if order = wanted then v else best).kind = k := by
  split
  next => exact hv
  next => exact hbest

/-- Arguments of one kind are gone through to the end, and the best one of all is left. -/
theorem exists_extremeFrom_eq_ok
    (hk : k = .int ∨ k = .str) (hdecides : Decides wanted beats) (f : Standard)
    {best : Value β} {seen rest : List (Value β)} (hleads : Leads beats seen best)
    (hbest : best.kind = k) (hrest : ∀ u ∈ rest, u.kind = k) :
    ∃ v, extremeFrom f wanted best rest = .ok v ∧ Leads beats (seen ++ rest) v := by
  induction rest generalizing best seen with
  | nil =>
      refine ⟨best, rfl, ?_⟩
      rwa [List.append_nil]
  | cons v rest ih =>
      obtain ⟨hv, hrest⟩ := List.forall_mem_cons.mp hrest
      have halike : Alike v best := alike_of_kind hk hv hbest
      obtain ⟨order, horder⟩ := exists_compare?_of_alike halike
      have hnext := ih (hleads.step hdecides halike horder) (kind_next hbest hv order) hrest
      rw [List.append_assoc, List.singleton_append] at hnext
      rwa [extremeFrom_cons horder]

/-- An argument of another kind is compared with something of the first one's kind. -/
theorem kind_of_extremeFrom_eq_ok
    {f : Standard} {best v : Value β} {rest : List (Value β)}
    (hbest : best.kind = .int ∨ best.kind = .str)
    (hrest : ∀ u ∈ rest, u.kind = .int ∨ u.kind = .str)
    (hok : extremeFrom f wanted best rest = .ok v) :
    ∀ u ∈ rest, u.kind = best.kind := by
  induction rest generalizing best with
  | nil => exact List.forall_mem_nil _
  | cons w rest ih =>
      obtain ⟨hw, hrest⟩ := List.forall_mem_cons.mp hrest
      by_cases hsame : w.kind = best.kind
      · obtain ⟨order, horder⟩ := exists_compare?_of_alike (alike_of_kind hbest hsame rfl)
        have hkind : (if order = wanted then w else best).kind = best.kind :=
          kind_next rfl hsame order
        rw [extremeFrom_cons horder] at hok
        have hothers := ih (by rwa [hkind]) hrest hok
        rw [hkind] at hothers
        exact List.forall_mem_cons.mpr ⟨hsame, hothers⟩
      · rw [extremeFrom, compare?_of_kind_ne hw hbest hsame] at hok
        exact absurd hok nofun

/-- A result is the best of arguments that are all of one kind. -/
theorem leads_of_extreme_eq_ok
    (hdecides : Decides wanted beats) {f : Standard} {args : List (Value β)} {v : Value β}
    (hkinds : ∀ u ∈ args, u.kind = .int ∨ u.kind = .str)
    (hok : (extreme f wanted args).result = .ok v) :
    (∀ u ∈ args, ∀ w ∈ args, u.kind = w.kind) ∧ Leads beats args v := by
  match args with
  | [] => exact absurd hok nofun
  | first :: rest =>
      obtain ⟨hfirst, hothers⟩ := List.forall_mem_cons.mp hkinds
      have hrest : ∀ u ∈ rest, u.kind = first.kind :=
        kind_of_extremeFrom_eq_ok hfirst hothers hok
      have hall : ∀ u ∈ first :: rest, u.kind = first.kind :=
        List.forall_mem_cons.mpr ⟨rfl, hrest⟩
      obtain ⟨v', hok', hleads⟩ :=
        exists_extremeFrom_eq_ok hfirst hdecides f (leads_singleton beats first) rfl hrest
      have hsame : v' = v := Except.ok.inj (hok'.symm.trans hok)
      rw [hsame] at hleads
      exact ⟨fun u hu w hw => (hall u hu).trans (hall w hw).symm, hleads⟩

theorem exists_extreme_eq_ok
    (hdecides : Decides wanted beats) (f : Standard) {args : List (Value β)} (hne : args ≠ [])
    (hkinds : ∀ u ∈ args, u.kind = .int ∨ u.kind = .str)
    (hsame : ∀ u ∈ args, ∀ w ∈ args, u.kind = w.kind) :
    ∃ v, (extreme f wanted args).result = .ok v := by
  obtain ⟨first, rest, rfl⟩ := List.exists_cons_of_ne_nil hne
  have hfirst : first ∈ first :: rest := List.mem_cons_self
  have hrest : ∀ u ∈ rest, u.kind = first.kind := by
    intro u hu
    exact hsame u (List.mem_cons_of_mem first hu) first hfirst
  obtain ⟨v, hok, -⟩ :=
    exists_extremeFrom_eq_ok (hkinds first hfirst) hdecides f (leads_singleton beats first) rfl
      hrest
  exact ⟨v, hok⟩

end Going

/-! ## The extreme of the arguments -/

/-- The function looks for a value that beats the others. -/
inductive Seeks : Standard → (Value β → Value β → Prop) → Prop where
  | least : Seeks .min Smaller
  | greatest : Seeks .max fun u v => Smaller v u

/-- The value stands at place `i` of the arguments and is beaten by none of them, and those
that stand before it are beaten. -/
structure FirstUnbeaten (beats : Value β → Value β → Prop) (args : List (Value β)) (i : Nat)
    (v : Value β) : Prop where
  stands : args[i]? = some v
  unbeaten : ∀ u ∈ args, ¬beats u v
  first : ∀ j < i, ∀ u, args[j]? = some u → ∃ w ∈ args, beats w u

section Extremes

variable {f : Standard} {wanted : Ordering} {beats : Value β → Value β → Prop}
  {args : List (Value β)} {v : Value β}

theorem Seeks.exists_decides
    (hseeks : Seeks f beats) :
    ∃ wanted, Decides wanted beats ∧
      ∀ args : List (Value β), f.invoke args = extreme f wanted args := by
  match hseeks with
  | .least => exact ⟨.lt, decides_lt, fun _ => rfl⟩
  | .greatest => exact ⟨.gt, decides_gt, fun _ => rfl⟩

theorem Leads.exists_firstUnbeaten
    (hdecides : Decides wanted beats) (hleads : Leads beats args v) :
    ∃ i, FirstUnbeaten beats args i v := by
  have hunbeaten : ∀ u ∈ args, ¬beats u v := fun u hu => hleads.not_beats hdecides hu
  have hmem : v ∈ args := hleads.mem
  obtain ⟨before, after, hsplit, hbefore, -⟩ := hleads
  refine ⟨before.length, ?_, hunbeaten, ?_⟩
  · rw [hsplit, List.getElem?_append_right (Nat.le_refl _), Nat.sub_self, List.getElem?_cons_zero]
  · intro j hj u hu
    rw [hsplit, List.getElem?_append_left hj] at hu
    exact ⟨v, hmem, hbefore u (List.mem_of_getElem? hu)⟩

/-- Two values that lead the same arguments, in whatever order, are the same. -/
theorem Leads.eq_of_perm
    (hdecides : Decides wanted beats) (hleads : Leads beats args v) {args' : List (Value β)}
    {v' : Value β} (hleads' : Leads beats args' v') (hperm : args'.Perm args) :
    v' = v := by
  rcases hleads.eq_or_beats (hperm.mem_iff.mp hleads'.mem) with heq | hbeats
  · exact heq
  · exact absurd hbeats (hleads'.not_beats hdecides (hperm.mem_iff.mpr hleads.mem))

/-- Of arguments that are integers and strings, the least and the greatest are found exactly
if all are of one kind.  What is found is the first argument that no other beats, so it is one
of the arguments, all others are the same or beaten by it, and it is found in whatever order
the arguments are given. -/
theorem extreme_is_first_unbeaten
    (hne : args ≠ []) (hkinds : ∀ u ∈ args, u.kind = .int ∨ u.kind = .str)
    (hseeks : Seeks f beats) :
    ((∃ v, (f.invoke args).result = .ok v) ↔ ∀ u ∈ args, ∀ w ∈ args, u.kind = w.kind) ∧
    ∀ v, (f.invoke args).result = .ok v →
      (∃ i, FirstUnbeaten beats args i v) ∧ v ∈ args ∧ (∀ u ∈ args, u = v ∨ beats v u) ∧
        ∀ args', args'.Perm args → (f.invoke args').result = .ok v := by
  obtain ⟨wanted, hdecides, hinvoke⟩ := hseeks.exists_decides
  simp only [hinvoke]
  constructor
  · constructor
    · rintro ⟨v, hok⟩
      exact (leads_of_extreme_eq_ok hdecides hkinds hok).1
    · exact exists_extreme_eq_ok hdecides f hne hkinds
  · intro v hok
    obtain ⟨hsame, hleads⟩ := leads_of_extreme_eq_ok hdecides hkinds hok
    refine ⟨hleads.exists_firstUnbeaten hdecides, hleads.mem, fun u hu => hleads.eq_or_beats hu, ?_⟩
    intro args' hperm
    have hmem : ∀ u, u ∈ args' → u ∈ args := fun u => hperm.mem_iff.mp
    have hne' : args' ≠ [] := List.ne_nil_of_mem (hperm.mem_iff.mpr hleads.mem)
    have hkinds' : ∀ u ∈ args', u.kind = .int ∨ u.kind = .str := fun u hu => hkinds u (hmem u hu)
    have hsame' : ∀ u ∈ args', ∀ w ∈ args', u.kind = w.kind :=
      fun u hu w hw => hsame u (hmem u hu) w (hmem w hw)
    obtain ⟨v', hok'⟩ := exists_extreme_eq_ok hdecides f hne' hkinds' hsame'
    have hleads' := (leads_of_extreme_eq_ok hdecides hkinds' hok').2
    rw [hok', hleads.eq_of_perm hdecides hleads' hperm]

end Extremes

/-- The bytes of strings decide, where units of two bytes would not find the same one. -/
theorem extreme_is_first_unbeaten_emoji :
    let args : List (Value Empty) := [.str "z", .str "～", .str "😀", .str "é", .str "😀"]
    args ≠ [] ∧ (∀ u ∈ args, u.kind = .int ∨ u.kind = .str) ∧
      Seeks (β := Empty) .max (fun u v => Smaller v u) ∧
      (max.invoke args).result = .ok (.str "😀") ∧
      (∃ i, FirstUnbeaten (fun u v => Smaller v u) args i (.str "😀")) ∧
      (max.invoke args.reverse).result = .ok (.str "😀") := by
  intro args
  have hne : args ≠ [] := List.cons_ne_nil _ _
  have hkinds : ∀ u ∈ args, u.kind = .int ∨ u.kind = .str := by simp [args, kind]
  have hgreatest : ∀ u ∈ args, ¬Smaller (.str "😀") u := by
    simp only [args, List.forall_mem_cons, smaller_strs_iff]
    exact ⟨by decide, by decide, by decide, by decide, by decide, List.forall_mem_nil _⟩
  obtain ⟨hsucceeds, hfound⟩ := extreme_is_first_unbeaten hne hkinds .greatest
  obtain ⟨v, hok⟩ := hsucceeds.mpr (by simp [args, kind])
  obtain ⟨hfirst, hmem, hbound, hperm⟩ := hfound v hok
  have hv : v = .str "😀" := by
    rcases hbound (.str "😀") (by simp [args]) with heq | hlt
    · exact heq.symm
    · exact absurd hlt (hgreatest v hmem)
  rw [hv] at hok hfirst hperm
  exact ⟨hne, hkinds, .greatest, hok, hfirst, hperm _ args.reverse_perm⟩

end Standard
end Stackline
