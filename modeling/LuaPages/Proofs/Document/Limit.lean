import LuaPages.Proofs.Document.Driver

namespace LuaPages

def Destination.limited (n : Nat) : Destination := ⟨.empty, some n⟩

namespace Document

variable {σ ε : Type}

/-- How an outcome with room for `m` bytes more comes from the one without a limit, which writes `t`
after `w`. -/
structure Cut (w : Bytes) (m : Nat) (free limited : Outcome σ ε) (t : Bytes) : Prop where
  out : free.out = ⟨w ++ t, none⟩
  out_limited : limited.out = ⟨w ++ t.extract 0 m, some (m - t.size)⟩
  fits : t.size ≤ m → limited.session = free.session ∧ limited.failure = free.failure
  refused : m < t.size → limited.failure = some .refused
  ran : limited.ran = free.ran.filter (·.2 ≤ w.size + m)
  within : ∀ d ∈ free.ran, w.size ≤ d.2 ∧ d.2 ≤ w.size + t.size

/-- Whether a limit does nothing but cut off what `f` does. -/
def Cuttable (f : Session σ → Destination → Outcome σ ε) : Prop :=
  ∀ s w m, ∃ t, Cut w m (f s ⟨w, none⟩) (f s ⟨w, some m⟩) t

namespace Cut

variable {w : Bytes} {m : Nat} {free limited : Outcome σ ε} {t : Bytes}

theorem of_room (hout : free.out = ⟨w, none⟩) (hout' : limited.out = ⟨w, some m⟩)
    (hsession : limited.session = free.session) (hfailure : limited.failure = free.failure)
    (hran : limited.ran = free.ran) (hsize : ∀ d ∈ free.ran, d.2 = w.size) :
    Cut w m free limited .empty where
  out := by rw [hout, ByteArray.append_empty]
  out_limited := by
    rw [hout', Bytes.extract_zero_of_le .empty m (Nat.zero_le m), ByteArray.append_empty]
    rfl
  fits _ := ⟨hsession, hfailure⟩
  refused h := absurd h (Nat.not_lt_zero m)
  ran := by
    rw [hran]
    refine (List.filter_eq_self.mpr fun d hd => ?_).symm
    rw [hsize d hd]
    exact decide_eq_true (Nat.le_add_right _ _)
  within d hd := by
    rw [hsize d hd]
    exact ⟨Nat.le_refl _, Nat.le_add_right _ _⟩

/-- One write of `t`, after a chunk was run or not. -/
theorem of_write (s : Session σ) (ran : List (Bytes × Nat)) (hsize : ∀ d ∈ ran, d.2 = w.size) :
    Cut w m ⟨s, ⟨w ++ t, none⟩, none, ran⟩
      ⟨s, ⟨w ++ t.extract 0 m, some (m - t.size)⟩,
        if t.size ≤ m then none else some (.refused : Failure ε), ran⟩ t where
  out := rfl
  out_limited := rfl
  fits h := ⟨rfl, if_pos h⟩
  refused h := if_neg (Nat.not_le.mpr h)
  ran := by
    refine (List.filter_eq_self.mpr fun d hd => ?_).symm
    rw [hsize d hd]
    exact decide_eq_true (Nat.le_add_right _ _)
  within d hd := by
    rw [hsize d hd]
    exact ⟨Nat.le_refl _, Nat.le_add_right _ _⟩

/-- The chunks that ran past a limit do not count. -/
theorem filter_append_of_lt (xs ys : List (Bytes × Nat)) (bound : Nat) (h : ∀ d ∈ ys, bound < d.2) :
    (xs ++ ys).filter (·.2 ≤ bound) = xs.filter (·.2 ≤ bound) := by
  have hnil : ys.filter (·.2 ≤ bound) = [] := by
    refine List.filter_eq_nil_iff.mpr fun d hd => ?_
    rw [decide_eq_true_eq]
    exact Nat.not_le.mpr (h d hd)
  rw [List.filter_append, hnil, List.append_nil]

section
variable {free' limited' : Outcome σ ε} {t' : Bytes} {k : Nat}

theorem within_append (h : Cut w m free limited t) (h' : Cut (w ++ t) k free' limited' t') :
    ∀ d ∈ free.ran ++ free'.ran, w.size ≤ d.2 ∧ d.2 ≤ w.size + (t ++ t').size := by
  intro d hd
  rw [ByteArray.size_append]
  rcases List.mem_append.mp hd with hd | hd
  · have hd := h.within d hd
    omega
  · have hd := h'.within d hd
    rw [ByteArray.size_append] at hd
    omega

/-- Both go on, the limited one with less room. -/
theorem append_of_fits (h : Cut w m free limited t) (hfit : t.size ≤ m)
    (h' : Cut (w ++ t) (m - t.size) free' limited' t') :
    Cut w m (free'.after free.ran) (limited'.after limited.ran) (t ++ t') where
  out := by rw [← ByteArray.append_assoc]; exact h'.out
  out_limited := by
    rw [Bytes.extract_zero_append, Bytes.extract_zero_of_le t m hfit, ← ByteArray.append_assoc,
      ByteArray.size_append, ← Nat.sub_sub]
    exact h'.out_limited
  fits hle := h'.fits (by rw [ByteArray.size_append] at hle; omega)
  refused hlt := h'.refused (by rw [ByteArray.size_append] at hlt; omega)
  ran := by
    have hbound : (w ++ t).size + (m - t.size) = w.size + m := by
      rw [ByteArray.size_append]
      omega
    have hran := h'.ran
    rw [hbound] at hran
    simp only [Outcome.after, h.ran, hran, List.filter_append]
  within := h.within_append h'

/-- The limited one has been refused, and the other one goes on. -/
theorem append_of_refused (h : Cut w m free limited t) (hlt : m < t.size)
    (h' : Cut (w ++ t) k free' limited' t') : Cut w m (free'.after free.ran) limited (t ++ t') where
  out := by rw [← ByteArray.append_assoc]; exact h'.out
  out_limited := by
    have hcut : (t ++ t').extract 0 m = t.extract 0 m := by
      rw [Bytes.extract_zero_append, Nat.sub_eq_zero_of_le (Nat.le_of_lt hlt), ByteArray.extract_same,
        ByteArray.append_empty]
    have hroom : m - t.size = m - (t ++ t').size := by
      rw [ByteArray.size_append]
      omega
    rw [hcut, h.out_limited, hroom]
  fits hle := absurd hle (by rw [ByteArray.size_append]; omega)
  refused _ := h.refused hlt
  ran := by
    rw [h.ran]
    refine (filter_append_of_lt _ _ _ fun d hd => ?_).symm
    have hd := (h'.within d hd).1
    rw [ByteArray.size_append] at hd
    omega
  within := h.within_append h'

end

end Cut

theorem cuttable_done : Cuttable (Outcome.done : Session σ → Destination → Outcome σ ε) := by
  intro s w m
  exact ⟨.empty, .of_room rfl rfl rfl rfl rfl fun d hd => absurd hd List.not_mem_nil⟩

theorem cuttable_writing (b : Bytes) :
    Cuttable (writing b : Session σ → Destination → Outcome σ ε) := by
  intro s w m
  refine ⟨b, ?_⟩
  have h : Cut w m _ _ b := .of_write (ε := ε) s [] fun d hd => absurd hd List.not_mem_nil
  simpa only [writing, Destination.write, if_true, decide_eq_true_eq] using h

theorem cuttable_running (behaviour : Behaviour σ ε) (line : Nat) (c : Bytes) :
    Cuttable (running behaviour line c) := by
  intro s w m
  have hsize : ∀ d ∈ [(c, w.size)], d.2 = w.size := by
    intro d hd
    rw [List.mem_singleton.mp hd]
  rcases he : s.exec behaviour c with ⟨s', _ | e⟩
  · have h : Cut w m _ _ s'.sink := .of_write (ε := ε) { s' with sink := .empty } _ hsize
    refine ⟨s'.sink, ?_⟩
    simpa only [running, he, Session.drain, Destination.write, if_true, decide_eq_true_eq] using h
  · refine ⟨.empty, ?_⟩
    simp only [running, he]
    exact .of_room rfl rfl rfl rfl rfl hsize

theorem Cuttable.andThen {f g : Session σ → Destination → Outcome σ ε} (hf : Cuttable f)
    (hg : Cuttable g) : Cuttable fun s out => (f s out).andThen g := by
  intro s w m
  obtain ⟨t, h⟩ := hf s w m
  dsimp only
  -- if all of the first part fits, the rest of the room is left to the second; if not, the limit stops it
  by_cases hfit : t.size ≤ m
  · obtain ⟨hsession, hfailure⟩ := h.fits hfit
    by_cases hdone : (f s ⟨w, none⟩).failure = none
    · obtain ⟨t', h'⟩ := hg (f s ⟨w, none⟩).session (w ++ t) (m - t.size)
      have hlimited : (f s ⟨w, some m⟩).out = ⟨w ++ t, some (m - t.size)⟩ := by
        rw [h.out_limited, Bytes.extract_zero_of_le t m hfit]
      rw [Outcome.andThen_of_done _ _ hdone, Outcome.andThen_of_done _ _ (hfailure.trans hdone),
        hsession, hlimited, h.out]
      exact ⟨t ++ t', h.append_of_fits hfit h'⟩
    · rw [Outcome.andThen_of_failed _ _ hdone, Outcome.andThen_of_failed _ _ (hfailure ▸ hdone)]
      exact ⟨t, h⟩
  · have hlt : m < t.size := Nat.not_le.mp hfit
    have hstopped : (f s ⟨w, some m⟩).failure ≠ none := by
      rw [h.refused hlt]
      exact Option.some_ne_none _
    rw [Outcome.andThen_of_failed _ _ hstopped]
    by_cases hdone : (f s ⟨w, none⟩).failure = none
    · obtain ⟨t', h'⟩ := hg (f s ⟨w, none⟩).session (w ++ t) 0
      rw [Outcome.andThen_of_done _ _ hdone, h.out]
      exact ⟨t ++ t', h.append_of_refused hlt h'⟩
    · rw [Outcome.andThen_of_failed _ _ hdone]
      exact ⟨t, h⟩

theorem cuttable_expand (behaviour : Behaviour σ ε) (l : List Segment) (line : Nat) :
    Cuttable (Segment.expand behaviour l line) := by
  induction l generalizing line with
  | nil => exact cuttable_done
  | cons x l ih =>
    have hx : Cuttable (x.perform behaviour line) := by
      cases x with
      | text b => exact cuttable_writing b
      | region c => exact cuttable_running behaviour _ c
      | unclosed c => exact cuttable_running behaviour _ c
    exact hx.andThen (ih _)

open Expansion in
/-- A destination with room for `n` bytes gets the first `n` bytes of what is written without a limit.
If that is all of it, the run ends in the same way. If not, the destination has refused, and the
chunks that were run are those that run without a limit before the byte that was refused is written. -/
theorem limited_run_is_cut (behaviour : Behaviour σ ε) (state : σ) (doc : Bytes) (n : Nat) :
    let free := run behaviour state doc .unlimited
    let limited := run behaviour state doc (.limited n)
    let ran := dispatches behaviour state doc .unlimited
    limited.1.out.written = free.1.out.written.extract 0 (min n free.1.out.written.size) ∧
      (free.1.out.written.size ≤ n → limited.2 = free.2) ∧
      (n < free.1.out.written.size → limited.2 = some .refused) ∧
      executed behaviour state doc .unlimited = ran.map Prod.fst ∧
      executed behaviour state doc (.limited n) = (ran.filter (·.2 ≤ n)).map Prod.fst := by
  intro free limited ran
  -- `t` is what the run writes without a limit
  obtain ⟨t, h⟩ := cuttable_expand behaviour (Segment.read doc) 1 (.start state) .empty n
  have hfree : free.1.out.written = t := by
    rw [run_out]
    exact (congrArg Destination.written h.out).trans ByteArray.empty_append
  have hlimited : limited.1.out.written = t.extract 0 n := by
    rw [run_out]
    exact (congrArg Destination.written h.out_limited).trans ByteArray.empty_append
  have hcut : t.extract 0 (min n t.size) = t.extract 0 n := by
    rcases Nat.le_total n t.size with hle | hle
    · rw [Nat.min_eq_left hle]
    · rw [Nat.min_eq_right hle, ByteArray.extract_zero_size, Bytes.extract_zero_of_le t n hle]
  refine ⟨?_, fun hle => ?_, fun hlt => ?_, ?_, ?_⟩
  · rw [hfree, hlimited, hcut]
  · rw [hfree] at hle
    rw [run_failure, run_failure]
    exact (h.fits hle).2
  · rw [hfree] at hlt
    rw [run_failure]
    exact h.refused hlt
  · rw [executed_eq_ran, ← dispatches_eq_ran]
  · have hran := h.ran
    rw [ByteArray.size_empty, Nat.zero_add] at hran
    rw [executed_eq_ran]
    refine (congrArg (List.map Prod.fst) hran).trans ?_
    simp only [ran, dispatches_eq_ran]
    rfl

end Document

end LuaPages
