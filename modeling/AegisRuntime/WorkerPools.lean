import Mathlib.Data.List.Perm.Basic

/-!
# Pools of workers

A pool is a list of workers, addressed by position; a step rewrites one of them
and new workers join at the end. The rules say how sums over the pool and the
values that some workers carry change with one worker.
-/

namespace AegisRuntime.WorkerPools

universe u v w

variable {α : Type u} {β : Type v} {pool : List α} {i : ℕ} {x y : α}

/-- The sum of a count over the pool. -/
def total (f : α → ℕ) (pool : List α) : ℕ := pool.foldl (fun n x => n+f x) 0

theorem foldl_total (f : α → ℕ) (pool : List α) (n : ℕ) :
    pool.foldl (fun n x => n+f x) n=n+total f pool := by
  induction pool generalizing n with
  | nil => rfl
  | cons x pool ih =>
    have hhead := ih (n+f x)
    have hrest := ih (0+f x)
    rw [List.foldl_cons,hhead]
    change n+f x+total f pool=n+pool.foldl (fun n x => n+f x) (0+f x)
    rw [hrest]
    omega

@[simp] theorem total_nil (f : α → ℕ) : total f []=0 := rfl

@[simp] theorem total_cons (f : α → ℕ) (x : α) (pool : List α) :
    total f (x::pool)=f x+total f pool := by
  rw [total,List.foldl_cons,foldl_total]
  omega

@[simp] theorem total_append (f : α → ℕ) (pool more : List α) :
    total f (pool++more)=total f pool+total f more := by
  rw [total,List.foldl_append,foldl_total]
  rfl

/-- A pool around one worker, before and after the worker is rewritten. -/
theorem split_at (h : pool[i]?=some x) (y : α) :
    ∃ before after, pool=before++x::after ∧ pool.set i y=before++y::after := by
  obtain ⟨hi,rfl⟩ := List.getElem?_eq_some_iff.mp h
  have hset : ∃ before after, pool=before++pool[i]::after ∧ before.length=i ∧
      pool.set i y=before++y::after := List.exists_of_set hi
  obtain ⟨before,after,hpool,-,hset⟩ := hset
  exact ⟨before,after,hpool,hset⟩

/-- Rewriting one worker changes a sum by what the worker counts. -/
theorem total_set (f : α → ℕ) (h : pool[i]?=some x) (y : α) :
    total f (pool.set i y)+f x=total f pool+f y := by
  obtain ⟨before,after,hpool,hset⟩ := split_at h y
  rw [hset,hpool]
  simp only [total_append,total_cons]
  omega

/-- A worker that carries what it carried before changes nothing. -/
theorem filterMap_set_same {f : α → Option β} (h : pool[i]?=some x) (hf : f y=f x) :
    (pool.set i y).filterMap f=pool.filterMap f := by
  obtain ⟨before,after,hpool,hset⟩ := split_at h y
  rw [hset,hpool]
  simp only [List.filterMap_append,List.filterMap_cons,hf]

/-- A worker that begins to carry a value adds it to those of the pool. -/
theorem perm_filterMap_set {f : α → Option β} {b : β} (h : pool[i]?=some x) (hx : f x=none)
    (hy : f y=some b) : ((pool.set i y).filterMap f).Perm (b::pool.filterMap f) := by
  obtain ⟨before,after,hpool,hset⟩ := split_at h y
  rw [hset,hpool]
  simp only [List.filterMap_append,List.filterMap_cons,hx,hy]
  exact List.perm_middle

end AegisRuntime.WorkerPools
