import CacheSim.LastWrite
import CacheSim.Program

namespace CacheSim.CommandLine

open Numerals LastWrite

inductive Item where
  | setting (s : Setting) (v : String)
  | flag (f : Flag)
  deriving DecidableEq

def Item.opt : Item → Opt
  | .setting s _ => .setting s
  | .flag f => .flag f

def items : List String → List Item
  | [] => []
  | arg :: args =>
    match Opt.ofArg arg with
    | some (.flag f) => .flag f :: items args
    | some (.setting s) =>
      match args with
      | [] => []
      | v :: args => .setting s v :: items args
    | _ => []

def Setting.Value : Setting → Type
  | .trace | .assoc _ => String
  | .size _ | .block _ | .addrBits => UInt64
  | .repl _ => ReplacementType
  | .write _ => WritePolicy
  | .alloc _ => AllocPolicy
  | .hit _ | .memTime => ℚ

def Setting.read (stod : String → Except NumberError ℚ) : (s : Setting) → String → Option s.Value
  | .trace, v | .assoc _, v => some v
  | .size _, v | .block _, v | .addrBits, v => (stoull v).toOption.map UInt64.ofNat
  | .repl _, v => parseRepl v
  | .write _, v => parseWrite v
  | .alloc _, v => parseAlloc v
  | .hit _, v | .memTime, v => (stod v).toOption

def Options.assign (o : Options) : (s : Setting) → s.Value → Options
  | .trace, v => { o with tracePath := v }
  | .size l, n => o.update l fun a => { a with cfg.sizeBytes := n, haveSize := true }
  | .block l, n => o.update l fun a => { a with cfg.blockSize := n, haveBlock := true }
  | .assoc l, v => o.update l fun a => { a with assocStr := v }
  | .repl l, t => o.update l fun a => { a with cfg.replacement := t }
  | .write l, p => o.update l fun a => { a with cfg.writePolicy := p }
  | .alloc l, p => o.update l fun a => { a with cfg.allocPolicy := p }
  | .hit l, x => o.update l fun a => { a with cfg.hitTime := x }
  | .memTime, x => { o with memTime := x }
  | .addrBits, n => { o with l1.cfg.addrWidth := n, l2.cfg.addrWidth := n }

theorem number_toOption {α : Type} (read : Except NumberError α) (use : α → Options) :
    (number read use).toOption = read.toOption.map use := by
  cases read <;> rfl

theorem count_toOption (v : String) (use : UInt64 → Options) :
    (number (stoull v) fun n => use (UInt64.ofNat n)).toOption =
      ((stoull v).toOption.map UInt64.ofNat).map use := by
  rw [number_toOption, Option.map_map]
  rfl

theorem word_toOption {α : Type} (flag got valid : String) (parsed : Option α) (use : α → Options) :
    (word flag got valid parsed use).toOption = parsed.map use := by
  cases parsed <;> rfl

theorem set_toOption (stod : String → Except NumberError ℚ) (o : Options) (arg : String) (s : Setting)
    (v : String) : (o.set stod arg s v).toOption = (s.read stod v).map (o.assign s) := by
  cases s with
  | trace | assoc l => rfl
  | size l => exact count_toOption v (o.assign (.size l))
  | block l => exact count_toOption v (o.assign (.block l))
  | addrBits => exact count_toOption v (o.assign .addrBits)
  | repl l => exact word_toOption arg v "lru, fifo or random" (parseRepl v) (o.assign (.repl l))
  | write l => exact word_toOption arg v "back or through" (parseWrite v) (o.assign (.write l))
  | alloc l => exact word_toOption arg v "allocate or no-allocate" (parseAlloc v) (o.assign (.alloc l))
  | hit l => exact number_toOption (stod v) (o.assign (.hit l))
  | memTime => exact number_toOption (stod v) (o.assign .memTime)

theorem parseArgs_invariant {P : Options → Prop} {stod : String → Except NumberError ℚ} {o o' : Options}
    {args : List String} (h : parseArgs stod o args = .ok o')
    (hassign : ∀ o arg s x, arg ∈ args → Opt.ofArg arg = some (.setting s) → P o → P (o.assign s x))
    (hraise : ∀ o arg f, arg ∈ args → Opt.ofArg arg = some (.flag f) → P o → P (o.raise f))
    (ho : P o) : P o' := by
  fun_induction parseArgs stod o args with
  | case1 o => exact Except.ok.inj h ▸ ho
  | case2 | case3 | case5 | case6 => cases h
  | case4 o arg args f hopt ih =>
    apply ih h
    · exact fun o arg s x harg => hassign o arg s x (List.mem_cons_of_mem _ harg)
    · exact fun o arg f harg => hraise o arg f (List.mem_cons_of_mem _ harg)
    · exact hraise o arg f List.mem_cons_self hopt ho
  | case7 o arg s hopt v args o₁ hset ih =>
    have hread := set_toOption stod o arg s v
    rw [hset] at hread
    obtain ⟨x, -, rfl⟩ := Option.map_eq_some_iff.mp hread.symm
    apply ih h
    · exact fun o arg s x harg => hassign o arg s x (List.mem_cons_of_mem _ (List.mem_cons_of_mem _ harg))
    · exact fun o arg f harg => hraise o arg f (List.mem_cons_of_mem _ (List.mem_cons_of_mem _ harg))
    · exact hassign o arg s x List.mem_cons_self hopt ho

inductive Edit where
  | assign (s : Setting) (x : s.Value)
  | raise (f : Flag)

def Edit.opt : Edit → Opt
  | .assign s _ => .setting s
  | .raise f => .flag f

def Edit.apply : Edit → Options → Options
  | .assign s x, o => o.assign s x
  | .raise f, o => o.raise f

def Item.edit (stod : String → Except NumberError ℚ) : Item → Option Edit
  | .setting s v => (s.read stod v).map (.assign s)
  | .flag f => some (.raise f)

theorem assign_comm {s s' : Setting} (h : s ≠ s') (x : s.Value) (x' : s'.Value) (o : Options) :
    (o.assign s' x').assign s x = (o.assign s x).assign s' x' := by
  cases s with
  | trace | memTime | addrBits =>
    cases s' with
    | trace | memTime | addrBits => first | rfl | exact absurd rfl h
    | size l' | block l' | assoc l' | repl l' | write l' | alloc l' | hit l' => cases l' <;> rfl
  | size l | block l | assoc l | repl l | write l | alloc l | hit l =>
    cases s' with
    | trace | memTime | addrBits => cases l <;> rfl
    | size l' | block l' | assoc l' | repl l' | write l' | alloc l' | hit l' =>
      cases l <;> cases l' <;> first | rfl | exact absurd rfl h

theorem assign_raise (s : Setting) (x : s.Value) (f : Flag) (o : Options) :
    (o.raise f).assign s x = (o.assign s x).raise f := by
  cases f <;> cases s with
  | trace | memTime | addrBits => rfl
  | size l | block l | assoc l | repl l | write l | alloc l | hit l => cases l <;> rfl

theorem raise_comm (f f' : Flag) (o : Options) : (o.raise f').raise f = (o.raise f).raise f' := by
  cases f <;> cases f' <;> rfl

theorem assign_assign (s : Setting) (x y : s.Value) (o : Options) :
    (o.assign s y).assign s x = o.assign s x := by
  cases s with
  | trace | memTime | addrBits => rfl
  | size l | block l | assoc l | repl l | write l | alloc l | hit l => cases l <;> rfl

theorem edit_writes : Writes Edit.opt Edit.apply where
  apart := by
    rintro (⟨s, x⟩ | f) (⟨s', x'⟩ | f') o h
    · exact assign_comm (fun hs => h (congrArg Opt.setting hs)) x x' o
    · exact assign_raise s x f' o
    · exact (assign_raise s' x' f o).symm
    · exact raise_comm f f' o
  covers := by
    rintro (⟨s, x⟩ | f) (⟨s', x'⟩ | f') o h
    · obtain rfl := Opt.setting.inj h
      exact assign_assign s x x' o
    · cases h
    · cases h
    · obtain rfl := Opt.flag.inj h
      cases f <;> rfl

theorem parseArgs_items {stod : String → Except NumberError ℚ} {o o' : Options} {args : List String}
    (h : parseArgs stod o args = .ok o') : (∀ i ∈ items args, (i.edit stod).isSome) ∧
      o' = ((items args).filterMap (Item.edit stod)).foldl (fun o x => x.apply o) o := by
  induction args using items.induct generalizing o with
  | case1 =>
    rw [parseArgs] at h
    exact ⟨by simp [items], (Except.ok.inj h).symm⟩
  | case2 arg args f hf ih =>
    rw [parseArgs, hf] at h
    obtain ⟨hall, hfold⟩ := ih h
    rw [items, hf]
    exact ⟨List.forall_mem_cons.mpr ⟨rfl, hall⟩, hfold⟩
  | case3 arg s hs =>
    rw [parseArgs, hs] at h
    cases h
  | case4 arg s hs v args ih =>
    rw [parseArgs, hs] at h
    dsimp only at h
    have hset := set_toOption stod o arg s v
    cases hok : o.set stod arg s v with
    | error stop =>
      rw [hok] at h
      cases h
    | ok o₁ =>
      rw [hok] at h hset
      obtain ⟨x, hx, rfl⟩ := Option.map_eq_some_iff.mp hset.symm
      obtain ⟨hall, hfold⟩ := ih h
      have hedit : Item.edit stod (.setting s v) = some (.assign s x) := by rw [Item.edit, hx]; rfl
      rw [items, hs]
      dsimp only
      rw [List.filterMap_cons_some hedit]
      exact ⟨List.forall_mem_cons.mpr ⟨by rw [hedit]; rfl, hall⟩, hfold⟩
  | case5 arg args h₁ h₂ =>
    rw [parseArgs] at h
    split at h
    · cases h
    · cases h
    · rename_i f hf
      exact absurd hf (h₁ f)
    · rename_i s hs
      exact absurd hs (h₂ s)

theorem edit_opt {stod : String → Except NumberError ℚ} {i : Item} {x : Edit} (h : i.edit stod = some x) :
    x.opt = i.opt := by
  cases i with
  | setting s v =>
    obtain ⟨y, -, rfl⟩ := Option.map_eq_some_iff.mp h
    rfl
  | flag f =>
    obtain rfl := Option.some.inj h
    rfl

theorem latest_edits {stod : String → Except NumberError ℚ} {h : List Item}
    (hall : ∀ i ∈ h, (i.edit stod).isSome) (k : Opt) :
    latest Edit.opt k (h.filterMap (Item.edit stod)) = (latest Item.opt k h).bind (Item.edit stod) := by
  induction h with
  | nil => rfl
  | cons i h ih =>
    rw [List.forall_mem_cons] at hall
    obtain ⟨x, hx⟩ := Option.isSome_iff_exists.mp hall.1
    rw [List.filterMap_cons_some hx]
    by_cases hk : i.opt = k
    · subst hk
      rw [latest_cons_self, Option.bind_some, hx, ← edit_opt hx, latest_cons_self]
    · rw [latest_cons_ne hk, latest_cons_ne (by rwa [edit_opt hx]), ih hall.2]

theorem last_value_counts (order : HashOrder UInt64 ℕ) (stod : String → Except NumberError ℚ)
    (showDouble showFixed : ℚ → String) (ulongBits : ℕ) (files : String → Option (List Char))
    (e : RandStream) (a : Access) (prog : String) (args args' : List String) (o o' : Options)
    (h : parseArgs stod {} args = .ok o) (h' : parseArgs stod {} args' = .ok o')
    (hlast : ∀ k, latest Item.opt k (items args).reverse = latest Item.opt k (items args').reverse) :
    o = o' ∧ main order stod showDouble showFixed ulongBits files e a prog args =
      main order stod showDouble showFixed ulongBits files e a prog args' := by
  obtain ⟨hall, hfold⟩ := parseArgs_items h
  obtain ⟨hall', hfold'⟩ := parseArgs_items h'
  have hsame : o = o' := by
    rw [hfold, hfold', ← List.foldr_reverse, ← List.foldr_reverse, ← List.filterMap_reverse,
      ← List.filterMap_reverse]
    -- `latest` reads the list from its end, where the last value of an option is
    apply edit_writes.foldr_eq
    intro k
    rw [latest_edits (fun i hi => hall i (List.mem_reverse.mp hi)), hlast k,
      latest_edits fun i hi => hall' i (List.mem_reverse.mp hi)]
  refine ⟨hsame, ?_⟩
  unfold main configure
  rw [h, h', hsame]

theorem last_value_counts_swapped :
    main .newestFirst (fun _ => .ok 1) toString toString 64 (fun _ => none) RandStream.zeros ⟨.Read, 0, 0⟩ "sim"
        ["--l1-assoc", "full", "--json", "--l1-size", "8", "--l1-size", "16"] =
      main .newestFirst (fun _ => .ok 1) toString toString 64 (fun _ => none) RandStream.zeros ⟨.Read, 0, 0⟩
        "sim" ["--l1-size", "16", "--json", "--l1-assoc", "full"] := by
  have hitems : items ["--l1-assoc", "full", "--json", "--l1-size", "8", "--l1-size", "16"] =
      [.setting (.assoc .L1) "full", .flag .json, .setting (.size .L1) "8", .setting (.size .L1) "16"] := rfl
  have hitems' : items ["--l1-size", "16", "--json", "--l1-assoc", "full"] =
      [.setting (.size .L1) "16", .flag .json, .setting (.assoc .L1) "full"] := rfl
  refine (last_value_counts .newestFirst (fun _ => .ok 1) toString toString 64 (fun _ => none)
    RandStream.zeros ⟨.Read, 0, 0⟩ "sim" ["--l1-assoc", "full", "--json", "--l1-size", "8", "--l1-size", "16"]
    ["--l1-size", "16", "--json", "--l1-assoc", "full"] _ _ rfl rfl ?_).2
  intro k
  rw [hitems, hitems']
  by_cases hsize : k = .setting (.size .L1)
  · subst hsize
    rfl
  by_cases hassoc : k = .setting (.assoc .L1)
  · subst hassoc
    rfl
  by_cases hjson : k = .flag .json
  · subst hjson
    rfl
  simp [latest, Item.opt, Ne.symm hsize, Ne.symm hassoc, Ne.symm hjson]

end CacheSim.CommandLine
