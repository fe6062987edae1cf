import Mathlib

/-!
Components that serve one request at a time and may read and change an
environment shared with other components. A component that calls another sees
its state evolve by `Serves`, in which the environment of each request is arbitrary.
-/

namespace CacheSim

class Service (ε σ : Type) (α β : outParam Type) where
  serve : σ → ε → α → β × σ × ε

namespace Service

variable {ε σ τ α β : Type} [Service ε σ α β] [Service ε τ α β]

def run (s : σ) (e : ε) : List α → List β × σ × ε
  | [] => ([], s, e)
  | a :: as =>
    let r := serve s e a
    let t := run r.2.1 r.2.2 as
    (r.1 :: t.1, t.2)

inductive Serves (ε : Type) [Service ε σ α β] : σ → List (α × β) → σ → Prop
  | nil (s : σ) : Serves ε s [] s
  | cons {s t : σ} {es : List (α × β)} (e : ε) (a : α) (h : Serves ε (serve s e a).2.1 es t) :
      Serves ε s ((a, (serve s e a).1) :: es) t

theorem run_append (s : σ) (e : ε) (as bs : List α) :
    run s e (as ++ bs) =
      let r := run s e as
      let t := run r.2.1 r.2.2 bs
      (r.1 ++ t.1, t.2) := by
  induction as generalizing s e with
  | nil => rfl
  | cons a as ih => simp only [List.cons_append, run, ih]

theorem run_length (s : σ) (e : ε) (as : List α) : (run s e as).1.length = as.length := by
  induction as generalizing s e with
  | nil => rfl
  | cons a as ih => simp only [run, List.length_cons, ih]

theorem run_serves (s : σ) (e : ε) (as : List α) :
    Serves ε s (as.zip (run s e as).1) (run s e as).2.1 := by
  induction as generalizing s e with
  | nil => exact .nil s
  | cons a as ih => exact .cons e a (ih _ _)

def Called (ε : Type) [Service ε σ α β] (s : σ) (calls : List α) (t : σ) : Prop :=
  ∃ es : List (α × β), es.map Prod.fst = calls ∧ Serves ε s es t

theorem Called.nil (s : σ) : Called ε s [] s := ⟨[], rfl, .nil s⟩

theorem Called.cons {s t : σ} {calls : List α} (e : ε) (a : α)
    (h : Called ε (serve s e a).2.1 calls t) : Called ε s (a :: calls) t := by
  obtain ⟨es, rfl, hes⟩ := h
  exact ⟨_ :: es, rfl, .cons e a hes⟩

theorem Called.one (s : σ) (e : ε) (a : α) : Called ε s [a] (serve s e a).2.1 := .cons e a (.nil _)

theorem Called.append {s t u : σ} {as bs : List α} (h : Called ε s as t) (k : Called ε t bs u) :
    Called ε s (as ++ bs) u := by
  obtain ⟨es, rfl, hes⟩ := h
  induction hes with
  | nil s => exact k
  | cons e a hes ih => exact .cons e a (ih k)

theorem run_called (s : σ) (e : ε) (as : List α) : Called ε s as (run s e as).2.1 := by
  refine ⟨_, ?_, run_serves s e as⟩
  rw [List.map_fst_zip (run_length s e as).ge]

theorem Serves.invariant {P : σ → Prop} (step : ∀ s (e : ε) a, P s → P (serve s e a).2.1)
    {s t : σ} {es : List (α × β)} (h : Serves ε s es t) (hs : P s) : P t := by
  induction h with
  | nil s => exact hs
  | cons e a h ih => exact ih (step _ e a hs)

theorem Called.invariant_of {P : σ → Prop} {s t : σ} {calls : List α} (h : Called ε s calls t)
    (step : ∀ s (e : ε), ∀ a ∈ calls, P s → P (serve s e a).2.1) (hs : P s) : P t := by
  obtain ⟨es, rfl, hes⟩ := h
  induction hes with
  | nil s => exact hs
  | cons e a hes ih =>
    exact ih (step _ e a List.mem_cons_self hs) fun s e b hb => step s e b (List.mem_cons_of_mem _ hb)

theorem Called.invariant {P : σ → Prop} (step : ∀ s (e : ε) a, P s → P (serve s e a).2.1)
    {s t : σ} {calls : List α} (h : Called ε s calls t) (hs : P s) : P t :=
  h.invariant_of (fun s e a _ => step s e a) hs

theorem Called.related {P : σ → τ → Prop}
    (step : ∀ s t (e e' : ε) a, P s t → P (serve s e a).2.1 (serve t e' a).2.1)
    {s s' : σ} {t t' : τ} {calls : List α} (h : Called ε s calls s') (k : Called ε t calls t')
    (hst : P s t) : P s' t' := by
  obtain ⟨es, rfl, hes⟩ := h
  obtain ⟨fs, hfs, hk⟩ := k
  induction hes generalizing t fs with
  | nil s =>
    obtain rfl := List.map_eq_nil_iff.mp hfs
    cases hk
    exact hst
  | cons e a hes ih =>
    cases hk with
    | nil t => exact absurd hfs (by simp)
    | cons e' a' hk =>
      simp only [List.map_cons, List.cons.injEq] at hfs
      obtain ⟨rfl, hrest⟩ := hfs
      exact ih (step _ _ e e' _ hst) _ hrest hk

theorem Called.reaches {I K : σ → Prop} {q : α → Prop}
    (hI : ∀ s (e : ε) a, I s → I (serve s e a).2.1)
    (hK : ∀ s (e : ε) a, I s → K s → K (serve s e a).2.1)
    (hq : ∀ s (e : ε) a, I s → q a → K (serve s e a).2.1)
    {s t : σ} {calls : List α} (h : Called ε s calls t) (hs : I s) (hcall : K s ∨ ∃ a ∈ calls, q a) :
    K t := by
  obtain ⟨es, rfl, hes⟩ := h
  induction hes with
  | nil s => simpa using hcall
  | @cons s t es e a hes ih =>
    apply ih (hI s e a hs)
    rcases hcall with hcall | ⟨a', ha', hqa⟩
    · exact .inl (hK s e a hs hcall)
    · rcases List.mem_cons.mp ha' with rfl | ha'
      · exact .inl (hq s e a' hs hqa)
      · exact .inr ⟨a', ha', hqa⟩

theorem Serves.history {P : List (α × β) → σ → Prop}
    (step : ∀ past s (e : ε) a, P past s → P ((a, (serve s e a).1) :: past) (serve s e a).2.1)
    {s t : σ} {es : List (α × β)} (h : Serves ε s es t) {past : List (α × β)} (hs : P past s) :
    P (es.reverse ++ past) t := by
  induction h generalizing past with
  | nil s => exact hs
  | cons e a h ih =>
    rw [List.reverse_cons, List.append_assoc]
    exact ih (step _ _ e a hs)

theorem Serves.history_nil {P : List (α × β) → σ → Prop}
    (step : ∀ past s (e : ε) a, P past s → P ((a, (serve s e a).1) :: past) (serve s e a).2.1)
    {s t : σ} {es : List (α × β)} (h : Serves ε s es t) (hs : P [] s) : P es.reverse t := by
  rw [← List.append_nil es.reverse]
  exact h.history step hs

theorem Called.count {f : σ → ℕ} {p : α → Bool}
    (step : ∀ s (e : ε) a, f (serve s e a).2.1 = f s + (p a).toNat)
    {s t : σ} {calls : List α} (h : Called ε s calls t) : f t = f s + calls.countP p := by
  obtain ⟨es, rfl, hes⟩ := h
  induction hes with
  | nil s => simp
  | @cons s t es e a hes ih =>
    rw [ih, step, List.map_cons, List.countP_cons]
    cases p a <;> simp [add_comm, add_assoc]

structure Logged (σ α β : Type) where
  state : σ
  log : List (α × β) := []

instance : Service ε (Logged σ α β) α β where
  serve l e a :=
    let r := serve l.state e a
    (r.1, ⟨r.2.1, l.log ++ [(a, r.1)]⟩, r.2.2)

theorem Serves.logged {l m : Logged σ α β} {es : List (α × β)} (h : Serves ε l es m) :
    m.log = l.log ++ es ∧ Serves ε l.state es m.state := by
  induction h with
  | nil l => exact ⟨(List.append_nil _).symm, .nil _⟩
  | @cons l m es e a h ih =>
    obtain ⟨hlog, hstate⟩ := ih
    exact ⟨by rw [hlog]; exact List.append_assoc _ _ _, .cons e a hstate⟩

theorem Called.logged {l m : Logged σ α β} {calls : List α} (h : Called ε l calls m) :
    m.log.map Prod.fst = l.log.map Prod.fst ++ calls := by
  obtain ⟨es, rfl, hes⟩ := h
  rw [hes.logged.1, List.map_append]

def Commutes (ε : Type) [Service ε σ α β] [Service ε τ α β] (f : σ → τ) : Prop :=
  ∀ (s : σ) (e : ε) (a : α),
    serve (f s) e a = ((serve s e a).1, f (serve s e a).2.1, (serve s e a).2.2)

theorem Commutes.apply {f : σ → τ} (hf : Commutes ε f) (s : σ) (e : ε) (a : α) :
    serve (f s) e a = ((serve s e a).1, f (serve s e a).2.1, (serve s e a).2.2) := hf s e a

theorem Commutes.run {f : σ → τ} (hf : Commutes ε f) (s : σ) (e : ε) (as : List α) :
    run (f s) e as = ((run s e as).1, f (run s e as).2.1, (run s e as).2.2) := by
  induction as generalizing s e with
  | nil => rfl
  | cons a as ih => simp only [Service.run, hf.apply, ih]

/-- Two components that keep the relation `R` between their states when the second is sent the
requests of the first through `f`, in environments related by `E`. -/
def Follows (E : ε → ε → Prop) (f : α → α) (R : σ → τ → Prop) : Prop :=
  ∀ (s : σ) (t : τ) (e e' : ε) (a : α), R s t → E e e' →
    R (serve s e a).2.1 (serve t e' (f a)).2.1 ∧ E (serve s e a).2.2 (serve t e' (f a)).2.2

def Quiet (ε : Type) [Service ε σ α β] (Q : σ → Prop) : Prop :=
  ∀ (s : σ) (e : ε) (a : α), Q s → Q (serve s e a).2.1 ∧ (serve s e a).2.2 = e

theorem Quiet.follows {P : σ → Prop} {Q : τ → Prop} (h : Quiet ε P) (k : Quiet ε Q)
    (E : ε → ε → Prop) (f : α → α) : Follows E f fun s t => P s ∧ Q t := by
  rintro s t e e' a ⟨hs, ht⟩ hE
  obtain ⟨hs', henv⟩ := h s e a hs
  obtain ⟨ht', henv'⟩ := k t e' (f a) ht
  rw [henv, henv']
  exact ⟨⟨hs', ht'⟩, hE⟩

def Simulates (E : ε → ε → Prop) (f : α → α) (R : σ → τ → Prop) : Prop :=
  Follows E f R ∧ ∀ (s : σ) (t : τ) (e e' : ε) (a : α), R s t → E e e' →
    (serve s e a).1 = (serve t e' (f a)).1

theorem Simulates.run {E : ε → ε → Prop} {f : α → α} {R : σ → τ → Prop} (h : Simulates E f R) {s : σ}
    {t : τ} {e e' : ε} (hR : R s t) (hE : E e e') (as : List α) :
    (Service.run s e as).1 = (Service.run t e' (as.map f)).1 ∧
      R (Service.run s e as).2.1 (Service.run t e' (as.map f)).2.1 := by
  induction as generalizing s t e e' with
  | nil => exact ⟨rfl, hR⟩
  | cons a as ih =>
    obtain ⟨hR', hE'⟩ := h.1 s t e e' a hR hE
    obtain ⟨hresults, hstates⟩ := ih hR' hE'
    rw [List.map_cons]
    exact ⟨congrArg₂ List.cons (h.2 s t e e' a hR hE) hresults, hstates⟩

end Service

end CacheSim
