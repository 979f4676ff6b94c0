import Rollup.Progress.Table
import Rollup.Proofs.Progress.Cell
import Rollup.Proofs.Storage.Run

namespace Rollup

open Storage

namespace Partition

theorem toList_reverse_display (p : Partition) : p.display.toList.reverse =
    (toString p.number).toList.reverse ++ ':' :: p.topic.toList.reverse := by
  simp [display, toString, String.toList_append]

theorem row_injective {p q : Partition} (h : p.row = q.row) : p = q := by
  have hdigit : ∀ n : Nat, ∀ c ∈ (toString n).toList.reverse, (c != ':') = true := by
    intro n c hc
    rw [List.mem_reverse, Nat.toString_eq_repr, Nat.toList_repr] at hc
    have hdigit := Nat.isDigit_of_mem_toDigits (by decide) (Nat.le_refl _) hc
    rw [bne_iff_ne]
    rintro rfl
    exact absurd hdigit (by decide)
  have hchars := congrArg (fun s => s.toList.reverse) (Utf8.encode_injective _ _ h)
  simp only [toList_reverse_display] at hchars
  -- the last colon ends the topic, since numbers have none
  have hnumber := congrArg (List.takeWhile (· != ':')) hchars
  have htopic := congrArg (List.dropWhile (· != ':')) hchars
  rw [List.takeWhile_append_of_pos (hdigit _), List.takeWhile_append_of_pos (hdigit _)] at hnumber
  rw [List.dropWhile_append_of_pos (hdigit _), List.dropWhile_append_of_pos (hdigit _)] at htopic
  simp only [List.takeWhile_cons, List.dropWhile_cons, bne_self_eq_false, Bool.false_eq_true,
    if_false, List.append_nil, List.reverse_inj, List.cons.injEq, true_and] at hnumber htopic
  have hvalue : p.number = q.number := by
    rw [← Progress.foldl_digits p.number, Progress.digits, String.toList_injective hnumber]
    exact Progress.foldl_digits q.number
  cases p
  cases q
  simp only [Partition.mk.injEq]
  exact ⟨String.toList_injective htopic, hvalue⟩

end Partition

namespace ProgressTable

variable {t : ProgressTable} {s : Storage} {p q : Partition}

def held? (t : ProgressTable) (s : Storage) (p : Partition) : Option Nat :=
  (((s.contents t.table).cell? p.row column).bind Progress.decode?).map (·.offset)

def keeping (t : ProgressTable) (s : Storage) (p : Partition) (progress : Progress) : Storage :=
  s.update t.table ((s.contents t.table).setCell p.row column (some progress.encode))

theorem held?_keeping (t : ProgressTable) (s : Storage) (p : Partition) {progress : Progress}
    (h : progress.offset ≤ Progress.maxOffset) (q : Partition) :
    t.held? (t.keeping s p progress) q = if q = p then some progress.offset else t.held? s q := by
  simp only [held?, keeping, contents_update, if_true, Table.cell?_setCell, and_true]
  split
  · next hrow =>
    rw [if_pos (Partition.row_injective hrow)]
    simp [Progress.decode?_encode progress h]
  · next hrow =>
    rw [if_neg fun hq => hrow (congrArg Partition.row hq)]

end ProgressTable

end Rollup
