import CacheSim.CommandLine
import CacheSim.LastWrite
import CacheSim.Validation

/-!
How the configuration phase ends. The values an argument list gives are read off it, the loop of
`main` is shown to keep the last one of each option, and from them it is decided whether an
exception or a division by zero ends the run.
-/

namespace CacheSim.CommandLine

open Cache LastWrite

section

variable {κ α : Type} [DecidableEq κ]

def lastValue (items : List (κ × α)) (k : κ) : Option α := (latest Prod.fst k items.reverse).map Prod.snd

theorem lastValue_concat (items : List (κ × α)) (k k' : κ) (v : α) :
    lastValue (items ++ [(k, v)]) k' = if k' = k then some v else lastValue items k' := by
  rw [lastValue, List.reverse_append, List.reverse_singleton, List.singleton_append]
  split_ifs with h
  · subst h
    exact congrArg (Option.map Prod.snd) (latest_cons_self (k', v) items.reverse)
  · rw [latest_cons_ne (Ne.symm h), lastValue]

end

def Stop.Own : Stop → Prop
  | .exit code message usage => (code = 0 ∧ usage = true) ∨ (code ≠ 0 ∧ message ≠ "")
  | .uncaught _ => False
  | .divisionByZero => False

def Clean {α : Type} : Except Stop α → Prop
  | .ok _ => True
  | .error stop => stop.Own

def Setting.refuses (s : Setting) (v : String) : Bool :=
  match s with
  | .repl _ => (parseRepl v).isNone
  | .write _ => (parseWrite v).isNone
  | .alloc _ => (parseAlloc v).isNone
  | _ => false

def Setting.Readable (stod : String → Except Numerals.NumberError ℚ) (s : Setting) (v : String) : Prop :=
  match s with
  | .size _ | .block _ | .addrBits => ∃ n, stoull v = .ok n
  | .hit _ | .memTime => ∃ x, stod v = .ok x
  | _ => True

def settings : List String → List (Setting × String)
  | [] => []
  | arg :: args =>
    match Opt.ofArg arg with
    | none => []
    | some .help => []
    | some (.flag _) => settings args
    | some (.setting s) =>
      match args with
      | [] => []
      | v :: args => (s, v) :: if s.refuses v then [] else settings args

def ReadToEnd : List String → Prop
  | [] => True
  | arg :: args =>
    match Opt.ofArg arg with
    | none => False
    | some .help => False
    | some (.flag _) => ReadToEnd args
    | some (.setting s) =>
      match args with
      | [] => False
      | v :: args => s.refuses v = false ∧ ReadToEnd args

def Setting.level : Setting → Option Level
  | .size l | .block l | .assoc l | .repl l | .write l | .alloc l | .hit l => some l
  | .trace | .memTime | .addrBits => none

def numberIn (v : String) : UInt64 :=
  match stoull v with
  | .error _ => 0
  | .ok n => UInt64.ofNat n

section

variable (items : List (Setting × String))

def given (s : Setting) : Bool := (lastValue items s).isSome

def numberOf (s : Setting) : UInt64 := ((lastValue items s).map numberIn).getD 0

def textOf (s : Setting) : String := (lastValue items s).getD ""

def Required : Prop :=
  textOf items .trace ≠ "" ∧ given items (.size .L1) = true ∧ given items (.block .L1) = true ∧
    ((∃ i ∈ items, i.1.level = some .L2) →
      given items (.size .L2) = true ∧ given items (.block .L2) = true)

def Resolvable (l : Level) : Prop :=
  let v := textOf items (.assoc l)
  v = "" ∨ if v = "full" then numberOf items (.block l) ≠ 0 else ∃ n, stoull v = .ok n

def assocOf (l : Level) : UInt64 :=
  if textOf items (.assoc l) = "" then 1
  else if textOf items (.assoc l) = "full" then numberOf items (.size l) / numberOf items (.block l)
  else numberIn (textOf items (.assoc l))

def asked (l : Level) : CacheConfig :=
  { sizeBytes := numberOf items (.size l)
    blockSize := numberOf items (.block l)
    associativity := assocOf items l }

end

variable {stod : String → Except Numerals.NumberError ℚ} {o o' : Options} {arg v : String} {s : Setting}
  {stop : Stop}

theorem number_ok {α : Type} {read : Except Numerals.NumberError α} {use : α → Options}
    (h : number read use = .ok o) : ∃ n, read = .ok n ∧ use n = o := by
  cases read with
  | error err => cases h
  | ok n => exact ⟨n, rfl, Except.ok.inj h⟩

theorem number_error {α : Type} {read : Except Numerals.NumberError α} {use : α → Options}
    (h : number read use = .error stop) : (¬∃ n, read = .ok n) ∧ ∃ err, stop = .uncaught err := by
  cases read with
  | error err =>
    refine ⟨?_, err, (Except.error.inj h).symm⟩
    rintro ⟨n, hn⟩
    cases hn
  | ok n => cases h

theorem word_ok {α : Type} {got valid : String} {parsed : Option α} {use : α → Options}
    (h : word arg got valid parsed use = .ok o) : parsed.isNone = false ∧ ∃ x, use x = o := by
  cases parsed with
  | none => cases h
  | some x => exact ⟨rfl, x, Except.ok.inj h⟩

theorem word_error {α : Type} {got valid : String} {parsed : Option α} {use : α → Options}
    (h : word arg got valid parsed use = .error stop) :
    parsed.isNone = true ∧ ∃ message, stop = .exit 2 message false ∧ message ≠ "" := by
  cases parsed with
  | none => exact ⟨rfl, _, (Except.error.inj h).symm, by simp⟩
  | some x => cases h

def Options.level (o : Options) : Level → LevelArgs
  | .L1 => o.l1
  | .L2 => o.l2

@[simp]
theorem level_update (o : Options) (l l' : Level) (f : LevelArgs → LevelArgs) :
    (o.update l f).level l' = if l = l' then f (o.level l') else o.level l' := by
  cases l <;> cases l' <;> rfl

@[simp]
theorem tracePath_update (o : Options) (l : Level) (f : LevelArgs → LevelArgs) :
    (o.update l f).tracePath = o.tracePath := by
  cases l <;> rfl

@[simp]
theorem anyL2_update (o : Options) (l : Level) (f : LevelArgs → LevelArgs) :
    (o.update l f).anyL2 = true ↔ l = .L2 ∨ o.anyL2 = true := by
  cases l <;> simp [Options.update]

structure Ask where
  haveSize : Bool
  haveBlock : Bool
  sizeBytes : UInt64
  blockSize : UInt64
  assocStr : String
  associativity : UInt64

def LevelArgs.ask (a : LevelArgs) : Ask :=
  ⟨a.haveSize, a.haveBlock, a.cfg.sizeBytes, a.cfg.blockSize, a.assocStr, a.cfg.associativity⟩

def askOf (items : List (Setting × String)) (l : Level) : Ask :=
  ⟨given items (.size l), given items (.block l), numberOf items (.size l), numberOf items (.block l),
    textOf items (.assoc l), 1⟩

structure Tracks (o : Options) (items : List (Setting × String)) : Prop where
  tracePath : o.tracePath = textOf items .trace
  anyL2 : o.anyL2 = true ↔ ∃ i ∈ items, i.1.level = some .L2
  ask : ∀ l, (o.level l).ask = askOf items l

theorem Tracks.start : Tracks {} [] where
  tracePath := rfl
  anyL2 := by simp
  ask l := by cases l <;> rfl

theorem Tracks.raise {items : List (Setting × String)} (h : Tracks o items) (f : Flag) :
    Tracks (o.raise f) items where
  tracePath := by
    rw [← h.tracePath]
    cases f <;> rfl
  anyL2 := by
    rw [← h.anyL2]
    cases f <;> rfl
  ask l := by
    rw [← h.ask]
    cases f <;> cases l <;> rfl

theorem given_concat (items : List (Setting × String)) (s s' : Setting) (v : String) :
    given (items ++ [(s, v)]) s' = (decide (s' = s) || given items s') := by
  rw [given, lastValue_concat]
  split_ifs with h <;> simp [given, h]

theorem textOf_concat (items : List (Setting × String)) (s s' : Setting) (v : String) :
    textOf (items ++ [(s, v)]) s' = if s' = s then v else textOf items s' := by
  rw [textOf, lastValue_concat]
  split_ifs with h <;> rfl

theorem numberOf_concat (items : List (Setting × String)) (s s' : Setting) (v : String) :
    numberOf (items ++ [(s, v)]) s' = if s' = s then numberIn v else numberOf items s' := by
  rw [numberOf, lastValue_concat]
  split_ifs with h <;> rfl

theorem numberIn_eq {n : ℕ} (h : stoull v = .ok n) : numberIn v = UInt64.ofNat n := by
  rw [numberIn, h]

theorem askOf_concat (items : List (Setting × String)) (s : Setting) (v : String) (l : Level) :
    askOf (items ++ [(s, v)]) l =
      { haveSize := decide (.size l = s) || given items (.size l)
        haveBlock := decide (.block l = s) || given items (.block l)
        sizeBytes := if .size l = s then numberIn v else numberOf items (.size l)
        blockSize := if .block l = s then numberIn v else numberOf items (.block l)
        assocStr := if .assoc l = s then v else textOf items (.assoc l)
        associativity := 1 } := by
  rw [askOf, given_concat, given_concat, numberOf_concat, numberOf_concat, textOf_concat]

theorem askOf_other (items : List (Setting × String)) {s : Setting} (v : String) (l : Level)
    (hs : ∀ l, s ≠ .size l ∧ s ≠ .block l ∧ s ≠ .assoc l) :
    askOf (items ++ [(s, v)]) l = askOf items l := by
  obtain ⟨hsize, hblock, hassoc⟩ := hs l
  rw [askOf_concat, if_neg hsize.symm, if_neg hblock.symm, if_neg hassoc.symm,
    decide_eq_false hsize.symm, decide_eq_false hblock.symm]
  rfl

theorem ask_update {f : LevelArgs → LevelArgs} (hf : ∀ a, (f a).ask = a.ask) (l l' : Level) :
    ((o.update l f).level l').ask = (o.level l').ask := by
  rw [level_update]
  split_ifs
  · exact hf _
  · rfl

theorem ask_set {items : List (Setting × String)} (h : ∀ l, (o.level l).ask = askOf items l)
    (hset : o.set stod arg s v = .ok o') (l : Level) : (o'.level l).ask = askOf (items ++ [(s, v)]) l := by
  have hl := h l
  cases s with
  | trace =>
    obtain rfl := Except.ok.inj hset
    rw [askOf_other items v l (by simp), ← hl]
    cases l <;> rfl
  | size l' | block l' =>
    obtain ⟨n, hn, rfl⟩ := number_ok hset
    rw [askOf_concat, level_update, numberIn_eq hn]
    simp only [LevelArgs.ask, askOf, Ask.mk.injEq] at hl
    by_cases h' : l' = l
    · simp [h', LevelArgs.ask, hl]
    · simp [h', Ne.symm h', LevelArgs.ask, hl]
  | assoc l' =>
    obtain rfl := Except.ok.inj hset
    rw [askOf_concat, level_update]
    simp only [LevelArgs.ask, askOf, Ask.mk.injEq] at hl
    by_cases h' : l' = l
    · simp [h', LevelArgs.ask, hl]
    · simp [h', Ne.symm h', LevelArgs.ask, hl]
  | repl l' | write l' | alloc l' =>
    obtain ⟨-, x, rfl⟩ := word_ok hset
    rw [askOf_other items v l (by simp), ← hl]
    exact ask_update (by intro a; rfl) l' l
  | hit l' =>
    obtain ⟨x, -, rfl⟩ := number_ok hset
    rw [askOf_other items v l (by simp), ← hl]
    exact ask_update (by intro a; rfl) l' l
  | memTime | addrBits =>
    obtain ⟨x, -, rfl⟩ := number_ok hset
    rw [askOf_other items v l (by simp), ← hl]
    cases l <;> rfl

theorem tracePath_set (hset : o.set stod arg s v = .ok o') :
    o'.tracePath = if .trace = s then v else o.tracePath := by
  cases s with
  | trace | assoc l =>
    obtain rfl := Except.ok.inj hset
    simp
  | size l | block l | hit l | memTime | addrBits =>
    obtain ⟨x, -, rfl⟩ := number_ok hset
    simp
  | repl l | write l | alloc l =>
    obtain ⟨-, x, rfl⟩ := word_ok hset
    simp

theorem anyL2_set (hset : o.set stod arg s v = .ok o') :
    o'.anyL2 = true ↔ s.level = some .L2 ∨ o.anyL2 = true := by
  cases s with
  | trace | assoc l =>
    obtain rfl := Except.ok.inj hset
    simp [Setting.level]
  | size l | block l | hit l | memTime | addrBits =>
    obtain ⟨x, -, rfl⟩ := number_ok hset
    simp [Setting.level]
  | repl l | write l | alloc l =>
    obtain ⟨-, x, rfl⟩ := word_ok hset
    simp [Setting.level]

theorem Tracks.set {items : List (Setting × String)} (h : Tracks o items)
    (hset : o.set stod arg s v = .ok o') : Tracks o' (items ++ [(s, v)]) where
  tracePath := by rw [tracePath_set hset, textOf_concat, h.tracePath]
  anyL2 := by
    rw [anyL2_set hset, h.anyL2]
    simp only [List.mem_append, List.mem_singleton]
    constructor
    · rintro (hs | ⟨i, hi, hl⟩)
      · exact ⟨(s, v), .inr rfl, hs⟩
      · exact ⟨i, .inl hi, hl⟩
    · rintro ⟨i, hi | rfl, hl⟩
      · exact .inr ⟨i, hi, hl⟩
      · exact .inl hl
  ask := ask_set h.ask hset

theorem set_ok (hset : o.set stod arg s v = .ok o') : s.refuses v = false ∧ s.Readable stod v := by
  cases s with
  | trace | assoc l => exact ⟨rfl, trivial⟩
  | size l | block l | hit l | memTime | addrBits =>
    obtain ⟨x, hx, -⟩ := number_ok hset
    exact ⟨rfl, x, hx⟩
  | repl l | write l | alloc l => exact ⟨(word_ok hset).1, trivial⟩

theorem set_error (hset : o.set stod arg s v = .error stop) :
    (¬s.Readable stod v ∧ ∃ err, stop = .uncaught err) ∨
      (s.refuses v = true ∧ s.Readable stod v ∧ ∃ message, stop = .exit 2 message false ∧ message ≠ "") := by
  cases s with
  | trace | assoc l => cases hset
  | size l | block l | hit l | memTime | addrBits => exact .inl (number_error hset)
  | repl l | write l | alloc l =>
    obtain ⟨hrefuses, hstop⟩ := word_error hset
    exact .inr ⟨hrefuses, trivial, hstop⟩

variable {items : List (Setting × String)} {args : List String}

theorem parseArgs_ok (h : Tracks o items) (hok : parseArgs stod o args = .ok o') :
    ReadToEnd args ∧ (∀ i ∈ settings args, i.1.Readable stod i.2) ∧ Tracks o' (items ++ settings args) := by
  fun_induction parseArgs stod o args generalizing items with
  | case1 o =>
    obtain rfl := Except.ok.inj hok
    refine ⟨trivial, ?_, ?_⟩
    · simp [settings]
    · simpa [settings] using h
  | case2 o arg args hopt => cases hok
  | case3 o arg args hopt => cases hok
  | case4 o arg args f hopt ih =>
    rw [settings, ReadToEnd, hopt]
    exact ih (h.raise f) hok
  | case5 o arg s hopt => cases hok
  | case6 o arg s hopt v args stop hset => cases hok
  | case7 o arg s hopt v args o₁ hset ih =>
    obtain ⟨hrefuses, hread⟩ := set_ok hset
    obtain ⟨hend, hreads, htracks⟩ := ih (h.set hset) hok
    rw [settings, ReadToEnd, hopt]
    dsimp only
    rw [hrefuses, if_neg Bool.false_ne_true]
    refine ⟨⟨rfl, hend⟩, ?_, ?_⟩
    · exact List.forall_mem_cons.mpr ⟨hread, hreads⟩
    · simpa using htracks

theorem parseArgs_error (herr : parseArgs stod o args = .error stop) :
    ((∃ i ∈ settings args, ¬i.1.Readable stod i.2) ∧ ∃ err, stop = .uncaught err) ∨
      ((∀ i ∈ settings args, i.1.Readable stod i.2) ∧ ¬ReadToEnd args ∧ stop.Own) := by
  fun_induction parseArgs stod o args with
  | case1 o => cases herr
  | case2 o arg args hopt =>
    obtain rfl := Except.error.inj herr
    rw [settings, ReadToEnd, hopt]
    exact .inr ⟨by simp, id, .inr ⟨by decide, by simp⟩⟩
  | case3 o arg args hopt =>
    obtain rfl := Except.error.inj herr
    rw [settings, ReadToEnd, hopt]
    exact .inr ⟨by simp, id, .inl ⟨rfl, rfl⟩⟩
  | case4 o arg args f hopt ih =>
    rw [settings, ReadToEnd, hopt]
    exact ih herr
  | case5 o arg s hopt =>
    obtain rfl := Except.error.inj herr
    rw [settings, ReadToEnd, hopt]
    exact .inr ⟨by simp, id, .inr ⟨by decide, by simp⟩⟩
  | case6 o arg s hopt v args stop' hset =>
    obtain rfl := Except.error.inj herr
    rw [settings, ReadToEnd, hopt]
    dsimp only
    rcases set_error hset with ⟨hread, hstop⟩ | ⟨hrefuses, hread, message, rfl, hmessage⟩
    · exact .inl ⟨⟨_, List.mem_cons_self, hread⟩, hstop⟩
    · rw [hrefuses, if_pos rfl]
      refine .inr ⟨?_, ?_, .inr ⟨by decide, hmessage⟩⟩
      · simpa using hread
      · simp
  | case7 o arg s hopt v args o₁ hset ih =>
    obtain ⟨hrefuses, hread⟩ := set_ok hset
    rw [settings, ReadToEnd, hopt]
    dsimp only
    rw [hrefuses, if_neg Bool.false_ne_true]
    rcases ih herr with ⟨⟨i, hi, hnot⟩, hstop⟩ | ⟨hreads, hend, hstop⟩
    · exact .inl ⟨⟨i, List.mem_cons_of_mem _ hi, hnot⟩, hstop⟩
    · refine .inr ⟨?_, fun h => hend h.2, hstop⟩
      exact List.forall_mem_cons.mpr ⟨hread, hreads⟩

theorem resolve_ok {a : LevelArgs} {l : Level} {cfg : CacheConfig} (ha : a.ask = askOf items l)
    (h : a.resolve = .ok cfg) : Resolvable items l ∧ cfg.sizeBytes = (asked items l).sizeBytes ∧
      cfg.blockSize = (asked items l).blockSize ∧ cfg.associativity = (asked items l).associativity := by
  simp only [LevelArgs.ask, askOf, Ask.mk.injEq] at ha
  obtain ⟨-, -, hsize, hblock, hassoc, hone⟩ := ha
  unfold LevelArgs.resolve resolveAssoc at h
  rw [hsize, hblock, hassoc] at h
  unfold Resolvable asked assocOf
  dsimp only
  by_cases hempty : textOf items (.assoc l) = ""
  · rw [if_pos hempty] at h ⊢
    obtain rfl := Except.ok.inj h
    exact ⟨.inl hempty, hsize, hblock, hone⟩
  rw [if_neg hempty] at h ⊢
  split_ifs at h ⊢ with hfull hzero
  · obtain rfl := Except.ok.inj h
    exact ⟨.inr hzero, hsize, hblock, rfl⟩
  · cases hn : stoull (textOf items (.assoc l)) with
    | error err =>
      rw [hn] at h
      cases h
    | ok n =>
      rw [hn] at h
      obtain rfl := Except.ok.inj h
      exact ⟨.inr ⟨n, rfl⟩, hsize, hblock, (numberIn_eq hn).symm⟩

theorem resolve_error {a : LevelArgs} {l : Level} (ha : a.ask = askOf items l)
    (h : a.resolve = .error stop) : ¬Resolvable items l ∧ ¬stop.Own := by
  simp only [LevelArgs.ask, askOf, Ask.mk.injEq] at ha
  obtain ⟨-, -, -, hblock, hassoc, -⟩ := ha
  unfold LevelArgs.resolve resolveAssoc at h
  rw [hblock, hassoc] at h
  unfold Resolvable
  dsimp only
  by_cases hempty : textOf items (.assoc l) = ""
  · rw [if_pos hempty] at h
    cases h
  rw [if_neg hempty] at h
  split_ifs at h ⊢ with hfull hzero
  · obtain rfl := Except.error.inj h
    refine ⟨?_, id⟩
    rintro (h0 | h0)
    · exact hempty h0
    · exact h0 hzero
  · cases hn : stoull (textOf items (.assoc l)) with
    | error err =>
      rw [hn] at h
      obtain rfl := Except.error.inj h
      refine ⟨?_, id⟩
      rintro (h0 | ⟨n, h0⟩)
      · exact hempty h0
      · cases h0
    | ok n =>
      rw [hn] at h
      cases h

theorem divides_congr {cfg cfg' : CacheConfig} (h : cfg.sizeBytes = cfg'.sizeBytes ∧
    cfg.blockSize = cfg'.blockSize ∧ cfg.associativity = cfg'.associativity) :
    (DividesByZero cfg ↔ DividesByZero cfg') ∧ (Refused cfg ↔ Refused cfg') := by
  obtain ⟨hsize, hblock, hassoc⟩ := h
  unfold DividesByZero Refused wrappedProduct
  rw [hsize, hblock, hassoc]
  exact ⟨.rfl, .rfl⟩

def askedLevels (items : List (Setting × String)) : List CacheConfig :=
  if given items (.size .L2) then [asked items .L1, asked items .L2] else [asked items .L1]

structure Sound (stod : String → Except Numerals.NumberError ℚ) (opens : String → Bool)
    (args : List String) : Prop where
  readable : ∀ i ∈ settings args, i.1.Readable stod i.2
  resolvable : ReadToEnd args → Required (settings args) → ∀ l, Resolvable (settings args) l
  divisors : ReadToEnd args → Required (settings args) → opens (textOf (settings args) .trace) = true →
    ¬CacheHierarchy.DividesAt (askedLevels (settings args))

theorem Tracks.required_iff (h : Tracks o items) :
    Required items ↔ ¬(o.tracePath = "" ∨ o.l1.haveSize = false ∨ o.l1.haveBlock = false) ∧
      ¬(o.anyL2 = true ∧ (o.l2.haveSize = false ∨ o.l2.haveBlock = false)) := by
  have hl1 := h.ask .L1
  have hl2 := h.ask .L2
  simp only [Options.level, LevelArgs.ask, askOf, Ask.mk.injEq] at hl1 hl2
  rw [Required, ← h.anyL2, h.tracePath, hl1.1, hl1.2.1, hl2.1, hl2.2.1]
  simp only [not_or, not_and, Bool.not_eq_false]
  tauto

theorem divides_levels {c1 c2 : CacheConfig} (h : Tracks o items) (h1 : o.l1.resolve = .ok c1)
    (h2 : o.l2.resolve = .ok c2) :
    CacheHierarchy.DividesAt (if o.l2.haveSize then [c1, c2] else [c1]) ↔
      CacheHierarchy.DividesAt (askedLevels items) := by
  have hl2 := h.ask .L2
  simp only [Options.level, LevelArgs.ask, askOf, Ask.mk.injEq] at hl2
  obtain ⟨hzero1, -⟩ := divides_congr (resolve_ok (h.ask .L1) h1).2
  obtain ⟨hzero2, hrefused2⟩ := divides_congr (resolve_ok (h.ask .L2) h2).2
  rw [hl2.1, askedLevels]
  split_ifs <;> simp [CacheHierarchy.DividesAt, hzero1, hzero2, hrefused2]

theorem construct_clean_iff (order : HashOrder UInt64 ℕ) (cfgs : List CacheConfig) (memTime : ℚ) :
    Clean (construct order cfgs memTime) ↔ ¬CacheHierarchy.DividesAt cfgs := by
  rw [← CacheHierarchy.new_divides_iff order builtinPolicies cfgs memTime, construct]
  cases CacheHierarchy.new order builtinPolicies cfgs memTime with
  | ok h => exact iff_of_true trivial (by simp)
  | error err =>
    cases err with
    | invalidArgument what => exact iff_of_true (.inr ⟨by decide, by simp⟩) (by simp)
    | divisionByZero => exact iff_of_false id (by simp)

theorem build_missing (order : HashOrder UInt64 ℕ) (opens : String → Bool) (h : Tracks o items)
    (hmissing : ¬Required items) : Clean (o.build order opens) := by
  rw [h.required_iff, not_and_not_right] at hmissing
  unfold Options.build
  by_cases hneeded : o.tracePath = "" ∨ o.l1.haveSize = false ∨ o.l1.haveBlock = false
  · rw [if_pos hneeded]
    exact .inr ⟨by decide, by simp⟩
  · rw [if_neg hneeded, if_pos (hmissing hneeded)]
    exact .inr ⟨by decide, by simp⟩

theorem build_clean_iff (order : HashOrder UInt64 ℕ) (opens : String → Bool) (h : Tracks o items)
    (hrequired : Required items) :
    Clean (o.build order opens) ↔ (∀ l, Resolvable items l) ∧
      (opens (textOf items .trace) = true → ¬CacheHierarchy.DividesAt (askedLevels items)) := by
  obtain ⟨hneeded, hl2⟩ := h.required_iff.mp hrequired
  rw [Options.build, if_neg hneeded, if_neg hl2]
  cases h1 : o.l1.resolve with
  | error stop =>
    obtain ⟨hnot, hstop⟩ := resolve_error (h.ask .L1) h1
    exact iff_of_false hstop fun hsound => hnot (hsound.1 .L1)
  | ok c1 =>
    cases h2 : o.l2.resolve with
    | error stop =>
      obtain ⟨hnot, hstop⟩ := resolve_error (h.ask .L2) h2
      exact iff_of_false hstop fun hsound => hnot (hsound.1 .L2)
    | ok c2 =>
      have hresolvable : ∀ l, Resolvable items l := by
        intro l
        cases l with
        | L1 => exact (resolve_ok (h.ask .L1) h1).1
        | L2 => exact (resolve_ok (h.ask .L2) h2).1
      dsimp only
      rw [and_iff_right hresolvable, h.tracePath, ← divides_levels h h1 h2]
      cases opens (textOf items .trace) with
      | false =>
        rw [if_pos rfl]
        exact iff_of_true (.inr ⟨by decide, by simp⟩) (by simp)
      | true =>
        rw [if_neg Bool.noConfusion, construct_clean_iff]
        simp

theorem configure_clean_iff (order : HashOrder UInt64 ℕ) (stod : String → Except Numerals.NumberError ℚ)
    (opens : String → Bool) (args : List String) :
    Clean (configure order stod opens args) ↔ Sound stod opens args := by
  rw [configure]
  cases hparse : parseArgs stod {} args with
  | error stop =>
    rcases parseArgs_error hparse with ⟨⟨i, hi, hnot⟩, err, rfl⟩ | ⟨hreads, hend, hstop⟩
    · exact iff_of_false id fun hsound => hnot (hsound.readable i hi)
    · exact iff_of_true hstop ⟨hreads, fun h => absurd h hend, fun h => absurd h hend⟩
  | ok o =>
    obtain ⟨hend, hreads, htracks⟩ := parseArgs_ok Tracks.start hparse
    rw [List.nil_append] at htracks
    have hbuild : Clean (o.build order opens) ↔ Sound stod opens args := by
      by_cases hrequired : Required (settings args)
      · rw [build_clean_iff order opens htracks hrequired]
        constructor
        · rintro ⟨hresolvable, hdivisors⟩
          exact ⟨hreads, fun _ _ => hresolvable, fun _ _ => hdivisors⟩
        · intro hsound
          exact ⟨hsound.resolvable hend hrequired, hsound.divisors hend hrequired⟩
      · apply iff_of_true (build_missing order opens htracks hrequired)
        exact ⟨hreads, fun _ h => absurd h hrequired, fun _ h => absurd h hrequired⟩
    rw [← hbuild]
    dsimp only
    cases o.build order opens with
    | error stop => rfl
    | ok h => rfl

theorem configure_crashes :
    let run := configure .newestFirst (fun _ => .ok 1) (fun _ => true)
    run ["--trace", "t", "--l1-size", "abc", "--l1-block", "4"] = .error (.uncaught .invalidArgument) ∧
      run ["--trace", "t", "--l1-size", "16", "--l1-block", "0", "--l1-assoc", "full"] =
        .error .divisionByZero ∧
      run ["--trace", "t", "--l1-size", "4294967296", "--l1-block", "4294967296", "--l1-assoc",
        "4294967296"] = .error .divisionByZero ∧
      ¬Clean (run ["--trace", "t", "--l1-size", "abc", "--l1-block", "4"]) :=
  ⟨rfl, rfl, rfl, id⟩

end CacheSim.CommandLine
