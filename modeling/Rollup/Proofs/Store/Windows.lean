import Mathlib.Algebra.BigOperators.Group.List.Basic
import Rollup.Proofs.Store.Writes

namespace Rollup

open Storage

namespace Resolution

variable {r : Resolution} {time start : Int}

theorem bucketStart_second (time : Int) : second.bucketStart time = time := by
  show time / 1 * 1 = time
  rw [Int.ediv_one, Int.mul_one]

theorem bucketStart_eq_iff (hr : r ≠ .total) :
    r.bucketStart time = start ↔
      r.width.toInt ∣ start ∧ start ≤ time ∧ time < start + r.width.toInt := by
  have hw := r.width_pos
  rw [bucketStart_eq hr]
  constructor
  · rintro rfl
    refine ⟨Int.dvd_mul_left .., Int.ediv_mul_le _ (Int.ne_of_gt hw), ?_⟩
    exact Int.lt_ediv_add_one_mul_self time hw |>.trans_eq (by rw [Int.add_mul, Int.one_mul])
  · rintro ⟨⟨k, rfl⟩, hle, hlt⟩
    rw [Int.mul_comm] at hle hlt ⊢
    have hk : time / r.width.toInt = k := by
      apply Int.le_antisymm
      · rw [← Int.lt_add_one_iff, Int.ediv_lt_iff_lt_mul hw, Int.add_mul, Int.one_mul]
        exact hlt
      · rwa [Int.le_ediv_iff_mul_le hw]
    rw [hk]

end Resolution

section Sums

variable {α κ : Type} [DecidableEq κ]

theorem sum_by_key (key : α → κ) (f : α → Int) {keys : List κ} (hnodup : keys.Nodup) (as : List α)
    (hkeys : ∀ a ∈ as, key a ∈ keys) :
    (keys.map fun k => ((as.filter (key · = k)).map f).sum).sum = (as.map f).sum := by
  induction as with
  | nil => simp
  | cons a as ih =>
      obtain ⟨hkey, hkeys⟩ := List.forall_mem_cons.mp hkeys
      have hsplit : ∀ k, (((a :: as).filter (key · = k)).map f).sum =
          (if k = key a then f a else 0) + ((as.filter (key · = k)).map f).sum := by
        intro k
        by_cases hk : key a = k
        · simp [hk]
        · simp [hk, Ne.symm hk]
      simp only [hsplit, List.sum_map_add, ih hkeys, List.map_cons, List.sum_cons]
      rw [List.sum_map_ite_eq, List.count_eq_one_of_mem hnodup hkey]
      simp

end Sums

theorem Int64.ofInt_sum_congr {α : Type} {value : α → Int64} {exact : α → Int} {as : List α}
    (h : ∀ a ∈ as, value a = Int64.ofInt (exact a)) :
    Int64.ofInt (as.map fun a => (value a).toInt).sum = Int64.ofInt (as.map exact).sum := by
  induction as with
  | nil => rfl
  | cons a as ih =>
      obtain ⟨ha, has⟩ := List.forall_mem_cons.mp h
      rw [List.map_cons, List.map_cons, List.sum_cons, List.sum_cons, Int64.ofInt_add,
        Int64.ofInt_add, ih has, Int64.ofInt_toInt, ha]

namespace Resolution

def window (r : Resolution) (start : Int) (points : List Point) : List Point :=
  points.filter fun q => r.bucketStart q.timestamp.toInt = start

theorem window_eq {r : Resolution} (hr : r ≠ .total) (start : Int) (points : List Point) :
    r.window start points = if r.width.toInt ∣ start then points.filter fun q =>
      start ≤ q.timestamp.toInt ∧ q.timestamp.toInt < start + r.width.toInt else [] := by
  split
  · next hdvd =>
    refine List.filter_congr fun q _ => ?_
    rw [decide_eq_decide, bucketStart_eq_iff hr, and_iff_right hdvd]
  · next hdvd =>
    rw [window, List.filter_eq_nil_iff]
    intro q _ hq
    exact hdvd ((bucketStart_eq_iff hr).mp (of_decide_eq_true hq)).1

theorem window_total (start : Int) (points : List Point) :
    total.window start points = if start = 0 then points else [] := by
  split
  · next hzero =>
    rw [window, List.filter_eq_self]
    exact fun q _ => decide_eq_true hzero.symm
  · next hzero =>
    rw [window, List.filter_eq_nil_iff]
    exact fun q _ hq => hzero (of_decide_eq_true hq).symm

end Resolution

def SumsOf (points : List Point) (ms : List Metric) (r : Resolution) (filter : Tags)
    (metric : String) : Prop :=
  points.Pairwise (fun p q => p.timestamp.toInt < q.timestamp.toInt) ∧
    ∀ p, p ∈ points ↔ deltas ms r filter metric p.timestamp.toInt ≠ [] ∧
      p.value = Int64.ofInt ((deltas ms r filter metric p.timestamp.toInt).map Int64.toInt).sum

namespace SumsOf

variable {seconds points : List Point} {ms : List Metric} {r : Resolution} {filter : Tags}
  {metric : String} {start : Int}

theorem deltas_second (ms : List Metric) (filter : Tags) (metric : String) {time : Int}
    (htime : r.bucketStart time = start) :
    deltas ms .second filter metric time =
      ((ms.filter (·.Joins r filter metric start)).filter (·.timestamp.toInt = time)).map
        (·.value) := by
  rw [deltas, List.filter_filter]
  congr 1
  refine List.filter_congr fun m _ => ?_
  rw [← Bool.decide_and, decide_eq_decide, Metric.Joins, Metric.Joins,
    Resolution.bucketStart_second]
  constructor
  · rintro ⟨hmatch, rfl⟩
    exact ⟨rfl, hmatch, htime⟩
  · rintro ⟨rfl, hmatch, -⟩
    exact ⟨hmatch, rfl⟩

theorem exists_second (h : SumsOf seconds ms .second filter metric) {m : Metric} (hm : m ∈ ms)
    (hjoins : m.Joins r filter metric start) :
    ∃ q ∈ r.window start seconds, q.timestamp = m.timestamp := by
  have hmem : m.value ∈ deltas ms .second filter metric m.timestamp.toInt := by
    refine List.mem_map_of_mem (List.mem_filter.mpr ⟨hm, decide_eq_true ⟨hjoins.1, ?_⟩⟩)
    exact Resolution.bucketStart_second _
  let q : Point := ⟨m.timestamp,
    Int64.ofInt ((deltas ms .second filter metric m.timestamp.toInt).map Int64.toInt).sum⟩
  have hq : q ∈ seconds := (h.2 q).mpr ⟨List.ne_nil_of_mem hmem, rfl⟩
  exact ⟨q, List.mem_filter.mpr ⟨hq, decide_eq_true hjoins.2⟩, rfl⟩

theorem window_eq_nil_iff (h : SumsOf seconds ms .second filter metric) :
    r.window start seconds = [] ↔ deltas ms r filter metric start = [] := by
  constructor
  · intro hnil
    rw [deltas, List.map_eq_nil_iff, List.filter_eq_nil_iff]
    intro m hm hjoins
    obtain ⟨q, hq, -⟩ := h.exists_second hm (of_decide_eq_true hjoins)
    rw [hnil] at hq
    cases hq
  · intro hnil
    rw [deltas, List.map_eq_nil_iff] at hnil
    refine List.eq_nil_iff_forall_not_mem.mpr fun q hq => ?_
    obtain ⟨hq, hstart⟩ := List.mem_filter.mp hq
    apply ((h.2 q).mp hq).1
    rw [deltas_second ms filter metric (of_decide_eq_true hstart), hnil]
    rfl

theorem window_sum (h : SumsOf seconds ms .second filter metric) :
    Int64.ofInt ((r.window start seconds).map (·.value.toInt)).sum =
      Int64.ofInt ((deltas ms r filter metric start).map Int64.toInt).sum := by
  have hsums : ∀ q ∈ r.window start seconds, q.value = Int64.ofInt
      (((ms.filter (·.Joins r filter metric start)).filter
        (·.timestamp.toInt = q.timestamp.toInt)).map (·.value.toInt)).sum := by
    intro q hq
    obtain ⟨hq, hstart⟩ := List.mem_filter.mp hq
    rw [((h.2 q).mp hq).2, deltas_second ms filter metric (of_decide_eq_true hstart),
      List.map_map]
    rfl
  have hnodup : ((r.window start seconds).map (·.timestamp.toInt)).Nodup := by
    rw [List.Nodup, List.pairwise_map]
    exact (h.1.filter _).imp Int.ne_of_lt
  rw [Int64.ofInt_sum_congr hsums, deltas, List.map_map]
  -- every delta of the bucket is one of a second that has a point
  have hall := sum_by_key (fun m : Metric => m.timestamp.toInt) (fun m => m.value.toInt) hnodup
    (ms.filter (·.Joins r filter metric start)) fun m hm => by
      obtain ⟨hm, hjoins⟩ := List.mem_filter.mp hm
      obtain ⟨q, hq, htime⟩ := h.exists_second hm (of_decide_eq_true hjoins)
      exact List.mem_map.mpr ⟨q, hq, congrArg Int64.toInt htime⟩
  rw [List.map_map] at hall
  exact congrArg Int64.ofInt hall

theorem mem_iff_window (h : SumsOf seconds ms .second filter metric)
    (hpoints : SumsOf points ms r filter metric) (p : Point) :
    p ∈ points ↔ r.window p.timestamp.toInt seconds ≠ [] ∧
      p.value = Int64.ofInt ((r.window p.timestamp.toInt seconds).map (·.value.toInt)).sum := by
  rw [hpoints.2, h.window_sum, ne_eq, ne_eq, h.window_eq_nil_iff]

end SumsOf

def TimeRange.always : TimeRange := ⟨Int64.minValue, Int64.maxValue⟩

theorem TimeRange.contains_always (time : Int64) : always.contains time = true := by
  simp [contains, always, Int64.minValue_le, Int64.le_maxValue]

theorem Datasets.direct_of_openStore {d : Datasets} (hd : d.Sound) (c : Catalog)
    (hbridged : ∀ r, ((d.openStore c).1.table r).isBridged = false) (r : Resolution) :
    (d.openStore c).1.table r = .direct (d.currentTable r) := by
  rcases Datasets.named_openStore hd c r with hdirect | hbridge
  · exact hdirect
  · have := hbridged r
    rw [hbridge] at this
    cases this

theorem SumsOf.total_eq {seconds points : List Point} {ms : List Metric} {filter : Tags}
    {metric : String} (h : SumsOf seconds ms .second filter metric)
    (hpoints : SumsOf points ms .total filter metric) :
    points = if seconds = [] then []
      else [⟨0, Int64.ofInt (seconds.map (·.value.toInt)).sum⟩] := by
  have hmem : ∀ p, p ∈ points ↔ p.timestamp = 0 ∧ seconds ≠ [] ∧
      p.value = Int64.ofInt (seconds.map (·.value.toInt)).sum := by
    intro p
    have hzero : p.timestamp = 0 ↔ p.timestamp.toInt = 0 := Int64.toInt_inj.symm
    rw [h.mem_iff_window hpoints, Resolution.window_total, hzero]
    split <;> simp [*]
  split
  · next hnil =>
    refine List.eq_nil_iff_forall_not_mem.mpr fun p hp => ?_
    exact ((hmem p).mp hp).2.1 hnil
  · next hne =>
    have hnodup : points.Nodup := by
      refine List.Pairwise.imp ?_ hpoints.1
      rintro p q hlt rfl
      exact Int.lt_irrefl _ hlt
    refine List.perm_singleton.mp ((List.perm_ext_iff_of_nodup hnodup (List.nodup_singleton _)).mpr
      fun p => ?_)
    rw [hmem, List.mem_singleton, Point.mk.injEq, and_iff_right hne]

namespace MetricStore

/-- A store without legacy tables, whose entity table is none of its fact tables and whose
tables were empty when it was opened, takes counters in any calls that succeed. Then the points
of minutes and hours are the sums of the points of the seconds in their windows, where there are
any, and the point of all time is the sum of all of them. Sums are those of words: exact
wherever they fit one. -/
theorem resolutions_agree {config : Config} {cache : Nat} {d : Datasets}
    (hd : Datasets.ofConfig config cache = .ok d) (c : Catalog)
    (hlegacy : ∀ r, ((d.openStore c).1.table r).isBridged = false) (hnames : d.EntitiesApart)
    {s s' : Storage} (hentities : d.entityTable.Ready s)
    (hempty : ∀ r, s.Holds (d.currentTable r).table .empty) {calls : List WriteCall}
    (hcounters : ∀ call ∈ calls, ∀ m ∈ call.values, m.kind = .counter)
    (hrun : ((d.openStore c).1.performAll calls).run answer s = (.ok (), s'))
    (filter : Tags) (metric : String) :
    ∃ points : Resolution → List Point,
      (∀ r, (points r).Pairwise (fun p q => p.timestamp.toInt < q.timestamp.toInt) ∧
        ∃ s'', ((d.openStore c).1.query r filter metric .always).run answer s' =
          (.ok (points r), s'')) ∧
      (∀ r ∈ [Resolution.minute, .hour], ∀ p, p ∈ points r ↔
        let inside := (points .second).filter fun q => p.timestamp.toInt ≤ q.timestamp.toInt ∧
          q.timestamp.toInt < p.timestamp.toInt + r.width.toInt
        r.width.toInt ∣ p.timestamp.toInt ∧ inside ≠ [] ∧
          p.value = Int64.ofInt (inside.map (·.value.toInt)).sum) ∧
      points .total = if points .second = [] then []
        else [⟨0, Int64.ofInt ((points .second).map (·.value.toInt)).sum⟩] := by
  have hdirect := Datasets.direct_of_openStore (Datasets.sound_ofConfig hd).1 c hlegacy
  have htracks := (Datasets.tracks_of_empty hentities hempty).performAll hnames hdirect hrun
  rw [List.nil_append] at htracks
  have hall : ∀ m ∈ calls.flatMap WriteCall.values, m.kind = .counter := by
    intro m hm
    obtain ⟨call, hcall, hm⟩ := List.mem_flatMap.mp hm
    exact hcounters call hcall m hm
  have hqueries := fun r => htracks.query_run hall r filter metric .always
  choose points after hquery hascending hmem using hqueries
  have hsums : ∀ r, SumsOf (points r) (calls.flatMap WriteCall.values) r filter metric := by
    refine fun r => ⟨hascending r, fun p => ?_⟩
    rw [hmem]
    exact and_iff_right (.inr (TimeRange.contains_always _))
  have hwindows := fun r => (hsums .second).mem_iff_window (hsums r)
  refine ⟨points, fun r => ⟨hascending r, after r, ?_⟩, fun r hr p => ?_, ?_⟩
  · rw [query, hdirect]
    exact hquery r
  · have htotal : r ≠ .total := by
      rintro rfl
      simp at hr
    rw [hwindows, Resolution.window_eq htotal]
    split <;> simp [*]
  · exact (hsums .second).total_eq (hsums .total)

def sampleCalls : List WriteCall :=
  [.add ⟨.counter, "m", 60, 4, .empty⟩,
    .addAll [⟨.counter, "m", 59, 2, .empty⟩, ⟨.counter, "m", 5, 1, .singleton "h" "x"⟩]]

theorem sample_resolutions_agree :
    let store := ((Datasets.usual {}).openStore {}).1
    let s' := ((store.performAll sampleCalls).run answer newStorage).2
    (store.performAll sampleCalls).run answer newStorage = (.ok (), s') ∧
      ∃ minutes s'', (store.query .minute .empty "m" .always).run answer s' =
        (.ok minutes, s'') ∧ ⟨0, 3⟩ ∈ minutes := by
  intro store s'
  have hrun : (store.performAll sampleCalls).run answer newStorage = (.ok (), s') :=
    Program.run_of_isOk (by decide +kernel)
  have hempty : ∀ r, newStorage.Holds ((Datasets.usual {}).currentTable r).table .empty :=
    fun r => holds_of_blank (by cases r <;> decide +kernel)
  have hentities : (Datasets.usual {}).entityTable.Ready newStorage :=
    (FactTable.Reflects.empty (t := (Datasets.usual {}).currentTable .second)
      (holds_of_blank (by decide +kernel)) (hempty .second) fun _ => rfl).ready
  have hd : Datasets.ofConfig {} 0 = .ok (.usual {}) := rfl
  obtain ⟨points, hquery, hcoarse, -⟩ := resolutions_agree hd {}
    (fun r => by cases r <;> decide +kernel) (fun r => by cases r <;> decide +kernel)
    hentities hempty (by decide) hrun .empty "m"
  obtain ⟨-, after, hsecond⟩ := hquery .second
  obtain ⟨-, after', hminute⟩ := hquery .minute
  have hfound : ((store.query .second .empty "m" .always).run answer s').1.toOption =
      some [⟨5, 1⟩, ⟨59, 2⟩, ⟨60, 4⟩] := by
    decide +kernel
  have hseconds : points .second = [⟨5, 1⟩, ⟨59, 2⟩, ⟨60, 4⟩] := by
    rw [hsecond] at hfound
    exact Option.some.inj hfound
  refine ⟨hrun, points .minute, after', hminute, (hcoarse .minute (by simp) _).mpr ?_⟩
  rw [hseconds]
  decide

end MetricStore

end Rollup
