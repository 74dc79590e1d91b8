import Mathlib.Data.List.Range
import Mathlib.Data.List.Infix
import Mathlib.Data.List.Nodup
import Mathlib.Algebra.GroupWithZero.Nat
import Mathlib.Algebra.Order.Group.Nat
import Mathlib.Algebra.BigOperators.Group.List.Basic

/-!
# Logs bounded in length and in weight

A log keeps the last items of a history. Each item has a weight, and items leave
at the front while there are too many of them or while they weigh too much. When
no single item is too heavy the newest one always stays, and when the history is
numbered from one, the front number tells exactly whether a reader who has seen
some first items can still be served.
-/
namespace IdfRemote.BoundedLog
variable {α : Type*}

def weight (log : List (α × ℕ)) : ℕ := (log.map Prod.snd).sum

@[simp] theorem weight_nil : weight ([] : List (α × ℕ)) = 0 := rfl

@[simp] theorem weight_cons (item : α × ℕ) (log : List (α × ℕ)) :
    weight (item :: log) = item.2 + weight log := by
  simp [weight]

@[simp] theorem weight_append (log log' : List (α × ℕ)) :
    weight (log ++ log') = weight log + weight log' := by
  simp [weight]

/-- Items leave at the front, and their weights leave the total. -/
def trim (maxItems maxWeight : ℕ) : List (α × ℕ) → ℕ → List (α × ℕ) × ℕ
  | [], total => ([], total)
  | item :: log, total =>
      if maxItems < (item :: log).length ∨ maxWeight < total then
        trim maxItems maxWeight log (total - item.2)
      else (item :: log, total)

/-- What a log keeps of a history. -/
structure Keeps (maxItems maxWeight : ℕ) (history log : List (α × ℕ)) (total : ℕ) : Prop where
  suffix : log <:+ history
  total_eq : total = weight log
  length_le : log.length ≤ maxItems
  total_le : total ≤ maxWeight
  newest : history ≠ [] → log ≠ []

section
variable {maxItems maxWeight : ℕ}

theorem trim_suffix (log : List (α × ℕ)) (total : ℕ) :
    (trim maxItems maxWeight log total).1 <:+ log := by
  induction log generalizing total with
  | nil => exact List.suffix_refl _
  | cons item log ih =>
      unfold trim
      split_ifs
      · exact (ih _).trans (List.suffix_cons _ _)
      · exact List.suffix_refl _

theorem trim_total (log : List (α × ℕ)) :
    (trim maxItems maxWeight log (weight log)).2 =
      weight (trim maxItems maxWeight log (weight log)).1 := by
  induction log with
  | nil => rfl
  | cons item log ih =>
      unfold trim
      split_ifs
      · rw [weight_cons, Nat.add_sub_cancel_left]
        exact ih
      · rfl

theorem trim_bounds (log : List (α × ℕ)) :
    (trim maxItems maxWeight log (weight log)).1.length ≤ maxItems ∧
      (trim maxItems maxWeight log (weight log)).2 ≤ maxWeight := by
  induction log with
  | nil => simp [trim]
  | cons item log ih =>
      unfold trim
      split_ifs with h
      · rw [weight_cons, Nat.add_sub_cancel_left]
        exact ih
      · exact ⟨Nat.le_of_not_lt fun hl => h (.inl hl), Nat.le_of_not_lt fun hw => h (.inr hw)⟩

/-- An item within the limits is never dropped when it is the last one. -/
theorem trim_newest (log : List (α × ℕ)) (item : α × ℕ) (hitems : 0 < maxItems)
    (hitem : item.2 ≤ maxWeight) :
    (trim maxItems maxWeight (log ++ [item]) (weight (log ++ [item]))).1 ≠ [] := by
  induction log with
  | nil =>
      have hkeep : ¬ (maxItems < [item].length ∨ maxWeight < weight [item]) := by
        simp only [List.length_singleton, weight_cons, weight_nil]
        omega
      rw [List.nil_append]
      unfold trim
      rw [if_neg hkeep]
      exact List.cons_ne_nil _ _
  | cons first log ih =>
      rw [List.cons_append]
      unfold trim
      split_ifs
      · rw [weight_cons, Nat.add_sub_cancel_left]
        exact ih
      · exact List.cons_ne_nil _ _

theorem Keeps.nil : Keeps maxItems maxWeight ([] : List (α × ℕ)) [] 0 where
  suffix := List.suffix_refl _
  total_eq := rfl
  length_le := Nat.zero_le _
  total_le := Nat.zero_le _
  newest h := h

theorem Keeps.append {history log : List (α × ℕ)} {total : ℕ}
    (h : Keeps maxItems maxWeight history log total) (item : α × ℕ) (hitems : 0 < maxItems)
    (hitem : item.2 ≤ maxWeight) :
    Keeps maxItems maxWeight (history ++ [item])
      (trim maxItems maxWeight (log ++ [item]) (total + item.2)).1
      (trim maxItems maxWeight (log ++ [item]) (total + item.2)).2 := by
  have htotal : total + item.2 = weight (log ++ [item]) := by
    rw [h.total_eq, weight_append, weight_cons, weight_nil, Nat.add_zero]
  rw [htotal]
  constructor
  · obtain ⟨pre, hpre⟩ := h.suffix
    refine (trim_suffix _ _).trans ⟨pre, ?_⟩
    rw [← List.append_assoc, hpre]
  · exact trim_total _
  · exact (trim_bounds _).1
  · exact (trim_bounds _).2
  · exact fun _ => trim_newest log item hitems hitem

end

/-- The items carry the numbers one, two and so on. -/
def Numbered (number : α → ℕ) (history : List α) : Prop :=
  history.map number = List.range' 1 history.length

section
variable {number : α → ℕ} {history log : List α}

theorem numbered_concat {item : α} : Numbered number (history ++ [item]) ↔
    Numbered number history ∧ number item = history.length + 1 := by
  unfold Numbered
  rw [List.map_append, List.length_append, List.length_singleton, List.range'_1_concat,
    List.map_singleton]
  constructor
  · intro h
    obtain ⟨hinit, hlast⟩ := List.append_inj' h rfl
    exact ⟨hinit, by simpa [Nat.add_comm] using hlast⟩
  · rintro ⟨hinit, hlast⟩
    rw [hinit, hlast, Nat.add_comm]

/-- A log of the last items carries consecutive numbers up to the last one. -/
theorem Numbered.suffix (h : Numbered number history) (hlog : log <:+ history) :
    log.map number = List.range' (history.length + 1 - log.length) log.length := by
  obtain ⟨pre, rfl⟩ := hlog
  unfold Numbered at h
  rw [List.length_append, List.map_append, ← List.range'_append_1] at h
  have hsplit := List.append_inj_right h (by simp)
  rw [hsplit, List.length_append]
  congr 1
  omega

theorem Numbered.mem_le (h : Numbered number history) {item : α} (hitem : item ∈ history) :
    1 ≤ number item ∧ number item ≤ history.length := by
  have hmem := List.mem_map_of_mem (f := number) hitem
  rw [h, List.mem_range'_1] at hmem
  omega

theorem Numbered.filter_eq (h : Numbered number history) {item : α} (hitem : item ∈ history) :
    history.filter (fun other => number other = number item) = [item] := by
  have hnumbers : (history.map number).Nodup := h ▸ List.nodup_range'
  have hnodup := (List.Nodup.of_map number hnumbers).filter fun other => number other = number item
  apply List.perm_singleton.mp
  refine (List.perm_ext_iff_of_nodup hnodup (List.nodup_singleton item)).mpr fun other => ?_
  rw [List.mem_filter, List.mem_singleton, decide_eq_true_eq]
  constructor
  · rintro ⟨hother, hsame⟩
    exact List.inj_on_of_nodup_map hnumbers hother hitem hsame
  · rintro rfl
    exact ⟨hitem, rfl⟩

theorem Numbered.append_left {pre : List α} (h : Numbered number (pre ++ log)) :
    Numbered number pre := by
  unfold Numbered at *
  rw [List.length_append, List.map_append, ← List.range'_append_1] at h
  exact List.append_inj_left h (by simp)

/-- The items numbered above `n` and up to `m`. -/
def between (number : α → ℕ) (n m : ℕ) (history : List α) : List α :=
  history.filter fun item => n < number item ∧ number item ≤ m

theorem Numbered.between_eq (h : Numbered number history) (n m : ℕ) :
    between number n m history = (history.take m).drop n := by
  unfold between
  induction history using List.reverseRecOn with
  | nil => simp
  | append_singleton init item ih =>
      obtain ⟨hinit, hitem⟩ := numbered_concat.mp h
      rw [List.filter_append, ih hinit]
      by_cases hm : m ≤ init.length
      · have hbeyond : ¬ number item ≤ m := by omega
        rw [List.take_append_of_le_length hm]
        simp [hbeyond]
      · have hwithin : number item ≤ m := by omega
        rw [List.take_of_length_le (by omega), List.take_of_length_le (by simp; omega)]
        by_cases hn : n ≤ init.length
        · have hlater : n < number item := by omega
          rw [List.drop_append_of_le_length hn]
          simp [hlater, hwithin]
        · have hearlier : ¬ n < number item := by omega
          rw [List.drop_eq_nil_of_le (by omega), List.drop_eq_nil_of_le (by simp; omega)]
          simp [hearlier]

theorem Numbered.between_append (h : Numbered number history) {n m l : ℕ} (hn : n ≤ m)
    (hm : m ≤ l) (hl : l ≤ history.length) :
    between number n m history ++ between number m l history = between number n l history := by
  rw [h.between_eq, h.between_eq, h.between_eq]
  have hfirst : history.take m = (history.take l).take m := by
    rw [List.take_take, Nat.min_eq_left hm]
  have hlength : n ≤ ((history.take l).take m).length := by
    simp only [List.length_take]
    omega
  calc (history.take m).drop n ++ (history.take l).drop m
      = ((history.take l).take m ++ (history.take l).drop m).drop n := by
        rw [List.drop_append_of_le_length hlength, hfirst]
    _ = (history.take l).drop n := by rw [List.take_append_drop]

/-- What comes later does not change a reading. -/
theorem Numbered.between_concat {item : α} (h : Numbered number (history ++ [item])) {n m : ℕ}
    (hm : m ≤ history.length) :
    between number n m (history ++ [item]) = between number n m history := by
  rw [h.between_eq, h.append_left.between_eq, List.take_append_of_le_length hm]

theorem between_self (n : ℕ) : between number n n history = [] := by
  unfold between
  rw [List.filter_eq_nil_iff]
  intro item _
  simp

theorem Numbered.front {pre rest : List α} {item : α}
    (h : Numbered number (pre ++ item :: rest)) : number item = pre.length + 1 := by
  rw [← List.singleton_append, ← List.append_assoc] at h
  exact (numbered_concat.mp h.append_left).2

/-- A reader of all that has left the log is served what it has not read. -/
theorem Numbered.serves {pre : List α} (h : Numbered number (pre ++ log)) {n : ℕ}
    (hn : pre.length ≤ n) :
    log.filter (fun item => n < number item) =
      between number n (pre ++ log).length (pre ++ log) := by
  have hpre : pre.filter (fun item => n < number item) = [] := by
    rw [List.filter_eq_nil_iff]
    intro item hitem
    have hle := (h.append_left.mem_le hitem).2
    simp only [decide_eq_true_eq]
    omega
  calc log.filter (fun item => n < number item)
      = (pre ++ log).filter fun item => n < number item := by
        rw [List.filter_append, hpre, List.nil_append]
    _ = between number n (pre ++ log).length (pre ++ log) := by
        apply List.filter_congr
        intro item hitem
        simp only [(h.mem_le hitem).2, and_true]

theorem Numbered.length_lt {pre : List α} (h : Numbered number (pre ++ log)) {item : α}
    (hitem : item ∈ log) : pre.length < number item := by
  have hmem := List.mem_map_of_mem (f := number) hitem
  rw [h.suffix (List.suffix_append _ _), List.mem_range'_1, List.length_append] at hmem
  omega

/-- A reader of less has missed the next item. -/
theorem Numbered.misses {pre : List α} (h : Numbered number (pre ++ log)) {n : ℕ}
    (hn : n < pre.length) : ∃ item ∈ pre ++ log, number item = n + 1 ∧ item ∉ log := by
  obtain ⟨front, item, rest, rfl, rfl⟩ : ∃ front item rest,
      pre = front ++ item :: rest ∧ front.length = n :=
    ⟨pre.take n, pre[n], pre.drop (n + 1), by simp, by simp; omega⟩
  have hitem : number item = front.length + 1 := by
    rw [List.append_assoc, List.cons_append] at h
    exact h.front
  refine ⟨item, by simp, hitem, fun hlog => ?_⟩
  have hlt := h.length_lt hlog
  omega

end
end IdfRemote.BoundedLog
