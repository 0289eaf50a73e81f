import Mathlib.Data.List.Induction
import Mathlib.Logic.Function.Basic

/-!
# Logs of keyed events and the walks they record

A log lists events; an event may carry a key and always carries a label. The
trail of a key is the list of labels logged for it, and replaying the log gives
every key its last label. When the labels of a key follow the edges of a
lifecycle, the trail is a walk: it ends in the current label, and a lifecycle
that only climbs in rank enters no label twice.
-/

namespace AegisRuntime.KeyedLogs

universe u v w

section Walks

variable {ℓ : Type u}

/-- A walk along edges from a start, listing the labels entered. -/
inductive Walk (edge : ℓ → ℓ → Prop) (start : ℓ) : List ℓ → ℓ → Prop where
  /-- Nothing was entered yet. -/
  | here : Walk edge start [] start
  /-- One more edge. -/
  | step {trail : List ℓ} {x y : ℓ} (walk : Walk edge start trail x) (along : edge x y) :
    Walk edge start (trail++[y]) y

variable {edge : ℓ → ℓ → Prop} {start : ℓ} {trail : List ℓ} {x : ℓ}

/-- The walk ends in the last label entered, or has not left the start. -/
theorem Walk.getLast (h : Walk edge start trail x) : trail.getLast?.getD start=x := by
  cases h with
  | here => rfl
  | step => rw [List.getLast?_concat,Option.getD_some]

/-- A walk that left the start has entered the label it ends in. -/
theorem Walk.mem_of_ne_start (h : Walk edge start trail x) (hx : x≠start) : x∈trail := by
  cases h with
  | here => exact absurd rfl hx
  | step => exact List.mem_append_right _ List.mem_cons_self

/-- Along edges that climb in rank, every label entered lies above the start
and at most as high as the end. -/
theorem Walk.rank_bounds (rank : ℓ → ℕ) (climbs : ∀ {x y}, edge x y → rank x < rank y)
    (h : Walk edge start trail x) :
    rank start ≤ rank x ∧ ∀ y∈trail, rank start < rank y ∧ rank y ≤ rank x := by
  induction h with
  | here => exact ⟨Nat.le_refl _,by simp⟩
  | step walk along ih =>
    have hup := climbs along
    refine ⟨by omega,fun y hy => ?_⟩
    rcases List.mem_append.mp hy with hy|hy
    · have hb := ih.2 y hy
      omega
    · rw [List.mem_singleton.mp hy]
      omega

/-- Along edges that climb in rank no label is entered twice. -/
theorem Walk.nodup (rank : ℓ → ℕ) (climbs : ∀ {x y}, edge x y → rank x < rank y)
    (h : Walk edge start trail x) : trail.Nodup := by
  induction h with
  | here => exact List.nodup_nil
  | step walk along ih =>
    rw [List.nodup_append]
    refine ⟨ih,by simp,fun a ha b hb hab => ?_⟩
    rw [List.mem_singleton.mp hb] at hab
    have hle := (walk.rank_bounds rank climbs).2 a ha
    have hup := climbs along
    rw [hab] at hle
    omega

end Walks

section Logs

variable {ε : Type u} {κ : Type v} {ℓ : Type w} [DecidableEq κ]
  (keyOf : ε → Option κ) (label : ε → ℓ)

/-- The labels logged for a key, in order. -/
def trail (k : κ) (log : List ε) : List ℓ := (log.filter fun e => keyOf e=some k).map label

@[simp] theorem trail_nil (k : κ) : trail keyOf label k []=[] := rfl

/-- An event of the key extends its trail. -/
theorem trail_concat_self {k : κ} {log : List ε} {e : ε} (h : keyOf e=some k) :
    trail keyOf label k (log++[e])=trail keyOf label k log++[label e] := by
  simp [trail,List.filter_append,h]

/-- An event of another key, or of none, leaves the trail alone. -/
theorem trail_concat_other {k : κ} {log : List ε} {e : ε} (h : keyOf e≠some k) :
    trail keyOf label k (log++[e])=trail keyOf label k log := by
  simp [trail,List.filter_append,h]

variable {keyOf label} in
theorem mem_trail {k : κ} {log : List ε} {y : ℓ} :
    y∈trail keyOf label k log ↔ ∃ e∈log, keyOf e=some k ∧ label e=y := by
  simp [trail,and_assoc]

/-- What an event makes of the labels of all keys. -/
def record (labels : κ → ℓ) (e : ε) : κ → ℓ :=
  match keyOf e with
  | some k => Function.update labels k (label e)
  | none => labels

/-- Replays a log: the last event of each key wins. -/
def replay (start : κ → ℓ) (log : List ε) : κ → ℓ := log.foldl (record keyOf label) start

/-- Replaying gives every key the last label of its trail. -/
theorem replay_eq_getLast (start : κ → ℓ) (log : List ε) (k : κ) :
    replay keyOf label start log k=(trail keyOf label k log).getLast?.getD (start k) := by
  induction log using List.reverseRecOn with
  | nil => rfl
  | append_singleton log e ih =>
    rw [replay,List.foldl_append,List.foldl_cons,List.foldl_nil,←replay,record]
    by_cases hk : keyOf e=some k
    · rw [trail_concat_self keyOf label hk,List.getLast?_concat,hk]
      simp only [Function.update_self,Option.getD_some]
    · rw [trail_concat_other keyOf label hk,←ih]
      cases he : keyOf e with
      | none => rfl
      | some k' =>
        refine Function.update_of_ne (fun hkk => hk ?_) _ _
        rw [he,hkk]

end Logs

end AegisRuntime.KeyedLogs
