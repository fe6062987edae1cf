import CacheSim.JsonDocument
import CacheSim.OptionOrder

namespace CacheSim

open JsonText

def count (n : ℕ) : Json := .number (toString n).toList

def word (s : String) : Json := .string s.toList

def member (key : String) (x : Json) : List Char × Json := (key.toList, x)

theorem write_member {key : String} (hkey : escaped key.toList = key.toList) (x : Json)
    (ms : List (List Char × Json)) : writeMembers escaped (member key x :: ms) =
      ',' :: '"' :: (key.toList ++ '"' :: ':' :: (write escaped x ++ writeMembers escaped ms)) := by
  rw [member, writeMembers, hkey]

theorem write_object {key : String} (hkey : escaped key.toList = key.toList) (x : Json)
    (ms : List (List Char × Json)) : write escaped (.object (member key x :: ms)) =
      '\x7b' :: '"' :: (key.toList ++ '"' :: ':' :: (write escaped x ++ writeMembers escaped ms)) := by
  rw [member, write, hkey]

theorem write_count (n : ℕ) : write escaped (count n) = (toString n).toList := rfl

theorem write_word {s : String} (hs : escaped s.toList = s.toList) :
    write escaped (word s) = '"' :: (s.toList ++ ['"']) := by
  rw [word, write, hs]

theorem count_eq (n : ℕ) : count n = .number (Nat.toDigits 10 n) := by
  rw [count, show toString n = String.ofList (Nat.toDigits 10 n) from rfl, String.toList_ofList]

theorem denotes_of_printable {cs : List Char} (h : Printable cs) : Denotes (escaped cs) cs := by
  apply denotes_escaped
  intro c hc
  exact of_decide_eq_true (List.all_eq_true.mp h c hc)

section

variable {num : List Char → Prop}

theorem formed_count (hnum : ∀ text, isNumber text = true → num text) (n : ℕ) : Formed num escaped (count n) := by
  rw [count_eq]
  exact hnum _ (isNumber_toDigits n)

theorem formed_word {s : String} (hs : Printable s.toList) : Formed num escaped (word s) :=
  denotes_of_printable hs

theorem formed_member {key : String} (hkey : Printable key.toList) (x : Json)
    (ms : List (List Char × Json)) : FormedMembers num escaped (member key x :: ms) =
      (Formed num escaped x ∧ FormedMembers num escaped ms) := by
  rw [member, FormedMembers, eq_true (denotes_of_printable hkey), true_and]

theorem formedItems_iff {xs : List Json} : FormedItems num escaped xs ↔ ∀ x ∈ xs, Formed num escaped x := by
  induction xs with
  | nil => simp [FormedItems]
  | cons x xs ih => rw [FormedItems, List.forall_mem_cons, ih]

end

namespace CacheHierarchy

variable {ρ : ℕ → ℕ → Type}

def levelObject (showDouble : ℚ → String) (total : ℕ) (c : (geo : Geometry) × Cache ρ geo) : Json :=
  let cfg := c.1.cfg
  let s := c.2.stats
  let real (x : ℚ) : Json := .number (showDouble x).toList
  .object [
    member "name" (word cfg.name),
    member "size" (count cfg.sizeBytes.toNat),
    member "block" (count cfg.blockSize.toNat),
    member "assoc" (count cfg.associativity.toNat),
    member "repl" (word (replStr cfg.replacement)),
    member "write" (word (if cfg.writePolicy = .WriteBack then "back" else "through")),
    member "alloc" (word (if cfg.allocPolicy = .WriteAllocate then "allocate" else "no-allocate")),
    member "hitTime" (real cfg.hitTime),
    member "classify3c" (.bool cfg.classify3C),
    member "accesses" (count s.accesses),
    member "hits" (count s.hits),
    member "misses" (count s.misses),
    member "reads" (count s.reads),
    member "writes" (count s.writes),
    member "writebacks" (count s.writebacks),
    member "hitRate" (real s.hitRate),
    member "missRate" (real s.missRate),
    member "globalMissRate" (real (if total = 0 then 0 else s.misses / total)),
    member "compulsory" (count s.compulsory),
    member "capacity" (count s.capacity),
    member "conflict" (count s.conflict)]

def statsObject (showDouble : ℚ → String) (h : CacheHierarchy ρ) (path : List Char) : Json :=
  .object [
    member "trace" (.string path),
    member "levels" (.array (h.levels.caches.map (levelObject showDouble h.levels.1.stats.accesses))),
    member "memory" (.object [
      member "reads" (count h.levels.memory.reads),
      member "writes" (count h.levels.memory.writes)]),
    member "memTime" (.number (showDouble h.memTime).toList),
    member "amat" (.number (showDouble h.computeAMAT).toList)]

def levelReals (total : ℕ) (c : (geo : Geometry) × Cache ρ geo) : List ℚ :=
  let s := c.2.stats
  [c.1.cfg.hitTime, s.hitRate, s.missRate, if total = 0 then 0 else s.misses / total]

def reals (h : CacheHierarchy ρ) : List ℚ :=
  h.levels.caches.flatMap (levelReals h.levels.1.stats.accesses) ++ [h.memTime, h.computeAMAT]

theorem write_if {p : Prop} [Decidable p] {s t : String} (hs : escaped s.toList = s.toList)
    (ht : escaped t.toList = t.toList) :
    write escaped (word (if p then s else t)) = '"' :: ((if p then s else t).toList ++ ['"']) := by
  split_ifs
  · exact write_word hs
  · exact write_word ht

set_option maxRecDepth 4000 in
theorem levelJson_write (showDouble : ℚ → String) (total : ℕ) (c : (geo : Geometry) × Cache ρ geo)
    (hname : escaped c.1.cfg.name.toList = c.1.cfg.name.toList) :
    (levelJson showDouble total c).toList = write escaped (levelObject showDouble total c) := by
  have hrepl : escaped (replStr c.1.cfg.replacement).toList = (replStr c.1.cfg.replacement).toList := by
    cases c.1.cfg.replacement <;> rfl
  have hbool : write escaped (.bool c.1.cfg.classify3C) =
      (if c.1.cfg.classify3C = true then "true" else "false").toList := by
    cases c.1.cfg.classify3C <;> rfl
  -- key by key, until both sides are the literals of the source and the same values
  have hopen : write escaped (levelObject showDouble total c) = _ := write_object (by rfl) _ _
  rw [hopen]
  iterate 20 rw [write_member (by rfl)]
  rw [write_word hname, write_word hrepl, write_if (by rfl) (by rfl), write_if (by rfl) (by rfl), hbool]
  simp only [write_count, write, writeMembers]
  unfold levelJson
  dsimp only
  simp only [String.toList_append, List.append_assoc, List.cons_append, List.nil_append]
  rfl

theorem intercalate_write {α : Type} {f : α → String} {g : α → Json} (x : α) (xs : List α)
    (h : ∀ y ∈ x :: xs, (f y).toList = write escaped (g y)) :
    (String.intercalate "," ((x :: xs).map f)).toList ++ [']'] =
      write escaped (g x) ++ writeItems escaped (xs.map g) := by
  induction xs generalizing x with
  | nil =>
    rw [List.map_singleton, String.intercalate_singleton, h x List.mem_cons_self]
    rfl
  | cons y xs ih =>
    rw [List.forall_mem_cons] at h
    rw [List.map_cons, List.map_cons, String.intercalate_cons_cons, ← List.map_cons, String.toList_append,
      String.toList_append, List.append_assoc, ih y h.2, h.1, List.append_assoc]
    rfl

theorem levels_write (showDouble : ℚ → String) (h : CacheHierarchy ρ)
    (hnames : ∀ c ∈ h.levels.caches, escaped c.1.cfg.name.toList = c.1.cfg.name.toList) (total : ℕ) :
    '[' :: ((String.intercalate "," (h.levels.caches.map (levelJson showDouble total))).toList ++ [']']) =
      write escaped (.array (h.levels.caches.map (levelObject showDouble total))) := by
  have hcaches : h.levels.caches = ⟨h.l1, h.levels.1⟩ :: h.levels.2.caches := rfl
  rw [hcaches] at hnames ⊢
  rw [intercalate_write _ _ fun c hc => levelJson_write showDouble total c (hnames c hc), List.map_cons, write]

theorem reportJson_write (showDouble : ℚ → String) (h : CacheHierarchy ρ) (path : List Char)
    (hnames : ∀ c ∈ h.levels.caches, escaped c.1.cfg.name.toList = c.1.cfg.name.toList) :
    h.reportJson showDouble (utf8 path) = utf8 (write escaped (h.statsObject showDouble path) ++ ['\n']) := by
  have hlevels := levels_write showDouble h hnames h.levels.1.stats.accesses
  rw [reportJson, jsonEscape_utf8, ← utf8_append, ← utf8_append]
  congr 1
  have hopen : write escaped (h.statsObject showDouble path) = _ := write_object (by rfl) _ _
  rw [hopen]
  iterate 4 rw [write_member (by rfl)]
  rw [← hlevels, write_object (by rfl), write_member (by rfl)]
  simp only [write_count, write, writeMembers]
  unfold reportHead reportTail
  dsimp only
  simp only [String.toList_append, List.append_assoc, List.cons_append, List.nil_append]
  rfl

section

variable {num : List Char → Prop} (hnum : ∀ text, isNumber text = true → num text) {showDouble : ℚ → String}

include hnum

theorem formed_levelObject (total : ℕ) (c : (geo : Geometry) × Cache ρ geo)
    (hname : Printable c.1.cfg.name.toList) : Formed num escaped (levelObject showDouble total c) ↔
      ∀ x ∈ levelReals total c, num (showDouble x).toList := by
  have hrepl : Printable (replStr c.1.cfg.replacement).toList := by
    cases c.1.cfg.replacement <;> rfl
  have hwrite : Printable (if c.1.cfg.writePolicy = .WriteBack then "back" else "through").toList := by
    split_ifs <;> rfl
  have halloc :
      Printable (if c.1.cfg.allocPolicy = .WriteAllocate then "allocate" else "no-allocate").toList := by
    split_ifs <;> rfl
  rw [levelObject, Formed]
  iterate 21 rw [formed_member (by rfl)]
  simp only [formed_word hname, formed_word hrepl, formed_word hwrite, formed_word halloc, formed_count hnum,
    Formed, FormedMembers, true_and, and_true, levelReals, List.forall_mem_cons, List.not_mem_nil, false_implies,
    implies_true]

theorem formed_statsObject (h : CacheHierarchy ρ) {path : List Char} (hpath : Printable path)
    (hnames : ∀ c ∈ h.levels.caches, Printable c.1.cfg.name.toList) :
    Formed num escaped (h.statsObject showDouble path) ↔ ∀ x ∈ h.reals, num (showDouble x).toList := by
  have hmemory : Formed num escaped (.object [member "reads" (count h.levels.memory.reads),
      member "writes" (count h.levels.memory.writes)]) := by
    rw [Formed, formed_member (by rfl), formed_member (by rfl)]
    exact ⟨formed_count hnum _, formed_count hnum _, trivial⟩
  have hlevels : Formed num escaped
      (.array (h.levels.caches.map (levelObject showDouble h.levels.1.stats.accesses))) ↔
        ∀ x ∈ h.levels.caches.flatMap (levelReals h.levels.1.stats.accesses), num (showDouble x).toList := by
    rw [Formed, formedItems_iff, List.forall_mem_map]
    simp only [List.mem_flatMap, forall_exists_index, and_imp]
    constructor
    · intro hall x c hc hx
      exact (formed_levelObject hnum _ c (hnames c hc)).mp (hall c hc) x hx
    · intro hall c hc
      exact (formed_levelObject hnum _ c (hnames c hc)).mpr fun x hx => hall x c hc hx
  rw [statsObject, Formed]
  iterate 5 rw [formed_member (by rfl)]
  rw [hlevels, eq_true hmemory, reals, List.forall_mem_append]
  simp only [Formed, FormedMembers, denotes_of_printable hpath, true_and, and_true, List.forall_mem_cons,
    List.not_mem_nil, false_implies, implies_true]

end

def counters : List (String × (Stats → ℕ)) :=
  [("accesses", Stats.accesses), ("hits", Stats.hits), ("misses", Stats.misses), ("reads", Stats.reads),
    ("writes", Stats.writes), ("writebacks", Stats.writebacks), ("compulsory", Stats.compulsory),
    ("capacity", Stats.capacity), ("conflict", Stats.conflict)]

theorem levelObject_counters (showDouble : ℚ → String) (total : ℕ) (c : (geo : Geometry) × Cache ρ geo) :
    ∀ f ∈ counters, ((levelObject showDouble total c).get f.1).bind Json.natural = some (f.2 c.2.stats) := by
  intro f hf
  have hget : (levelObject showDouble total c).get f.1 = some (count (f.2 c.2.stats)) := by
    simp only [counters, List.mem_cons, List.not_mem_nil, or_false] at hf
    rcases hf with rfl | rfl | rfl | rfl | rfl | rfl | rfl | rfl | rfl <;> rfl
  rw [hget, count_eq]
  exact Json.natural_toDigits _

end CacheHierarchy

theorem Chain.mem_caches {μ : Type} {ρ : ℕ → ℕ → Type} {geos : List Geometry} {s : Chain ρ μ geos}
    {c : (geo : Geometry) × Cache ρ geo} (hc : c ∈ s.caches) : c.1 ∈ geos := by
  induction geos with
  | nil => cases hc
  | cons geo geos ih =>
    rcases List.mem_cons.mp hc with rfl | hc
    · exact List.mem_cons_self
    · exact List.mem_cons_of_mem _ (ih hc)

namespace CommandLine

open Numerals TraceReader Service

theorem assign_names (o : Options) (s : Setting) (x : s.Value) :
    (o.assign s x).l1.cfg.name = o.l1.cfg.name ∧ (o.assign s x).l2.cfg.name = o.l2.cfg.name := by
  cases s with
  | trace | memTime | addrBits => exact ⟨rfl, rfl⟩
  | size l | block l | assoc l | repl l | write l | alloc l | hit l => cases l <;> exact ⟨rfl, rfl⟩

theorem parseArgs_names {stod : String → Except NumberError ℚ} {args : List String} {o o' : Options}
    (h : parseArgs stod o args = .ok o') :
    o'.l1.cfg.name = o.l1.cfg.name ∧ o'.l2.cfg.name = o.l2.cfg.name := by
  apply parseArgs_invariant (P := fun o' => o'.l1.cfg.name = o.l1.cfg.name ∧ o'.l2.cfg.name = o.l2.cfg.name) h
  · intro o' arg s x _ _ hnames
    obtain ⟨h1, h2⟩ := assign_names o' s x
    exact ⟨h1.trans hnames.1, h2.trans hnames.2⟩
  · intro o' arg f _ _ hnames
    cases f <;> exact hnames
  · exact ⟨rfl, rfl⟩

theorem resolve_name {a : LevelArgs} {cfg : CacheConfig} (h : a.resolve = .ok cfg) :
    cfg.name = a.cfg.name := by
  unfold LevelArgs.resolve at h
  split at h
  · rw [← Except.ok.inj h]
  split at h
  · cases h
  · rw [← Except.ok.inj h]

variable {order : HashOrder UInt64 ℕ} {opens : String → Bool} {o : Options} {h : CacheHierarchy BuiltinPolicy}

theorem construct_cfgs {cfgs : List CacheConfig} {memTime : ℚ} (hok : construct order cfgs memTime = .ok h) :
    cfgs = (h.l1 :: h.lower).map fun geo => geo.cfg := by
  unfold construct at hok
  split at hok
  · cases hok
  · cases hok
  · next hnew =>
    obtain rfl := Except.ok.inj hok
    exact (CacheHierarchy.new_ok hnew).1

theorem build_names (hok : o.build order opens = .ok h) {geo : Geometry} (hgeo : geo ∈ h.l1 :: h.lower) :
    geo.cfg.name = o.l1.cfg.name ∨ geo.cfg.name = o.l2.cfg.name := by
  unfold Options.build at hok
  split at hok
  · cases hok
  split at hok
  · cases hok
  split at hok
  · cases hok
  next l1 hl1 =>
    split at hok
    · cases hok
    next l2 hl2 =>
      split at hok
      · cases hok
      have hmem : geo.cfg ∈ if o.l2.haveSize then [l1, l2] else [l1] := by
        rw [construct_cfgs hok]
        exact List.mem_map_of_mem hgeo
      have hone : geo.cfg = l1 ∨ geo.cfg = l2 := by
        split_ifs at hmem
        · simpa using hmem
        · exact .inl (List.mem_singleton.mp hmem)
      rcases hone with heq | heq
      · exact .inl (by rw [heq, resolve_name hl1])
      · exact .inr (by rw [heq, resolve_name hl2])

theorem configure_names {stod : String → Except NumberError ℚ} {args : List String}
    (hok : configure order stod opens args = .ok (o, h)) {geo : Geometry} (hgeo : geo ∈ h.l1 :: h.lower) :
    geo.cfg.name = "L1" ∨ geo.cfg.name = "L2" := by
  unfold configure at hok
  split at hok
  · cases hok
  next hparse =>
    split at hok
    · cases hok
    next hbuild =>
      obtain ⟨rfl, rfl⟩ := Prod.mk.inj (Except.ok.inj hok)
      obtain ⟨h1, h2⟩ := parseArgs_names hparse
      have hnames := build_names hbuild hgeo
      rwa [h1, h2] at hnames

section

variable {stod : String → Except NumberError ℚ} {showDouble showFixed : ℚ → String} {ulongBits : ℕ}
  {files : String → Option (List Char)} {e : RandStream} {a : Access} {prog : String} {args : List String}

theorem fed_names (hok : configure order stod (fun path => (files path).isSome) args = .ok (o, h))
    (trace : List Access) :
    ∀ c ∈ (h.feedAll e trace).1.levels.caches, c.1.cfg.name = "L1" ∨ c.1.cfg.name = "L2" := by
  rw [h.feedAll_eq]
  exact fun c hc => configure_names hok (Chain.mem_caches hc)

theorem main_json (hok : configure order stod (fun path => (files path).isSome) args = .ok (o, h))
    (hjson : o.jsonOut = true) (hquiet : o.verbose = false) :
    main order stod showDouble showFixed ulongBits files e a prog args =
      .exit 0 (utf8 (write escaped ((h.feedAll e (records ulongBits ((files o.tracePath).getD []))).1.statsObject
        showDouble o.tracePath.toList) ++ ['\n'])) "" := by
  have hnames := fed_names (e := e) hok (records ulongBits ((files o.tracePath).getD []))
  rw [h.feedAll_eq] at hnames ⊢
  rw [main_ok hok, printed, hjson, hquiet]
  congr 1
  apply CacheHierarchy.reportJson_write
  intro c hc
  rcases hnames c hc with hname | hname <;> rw [hname] <;> rfl

theorem formed_json {num : List Char → Prop} (hnum : ∀ text, isNumber text = true → num text)
    (hok : configure order stod (fun path => (files path).isSome) args = .ok (o, h)) {path : List Char}
    (hpath : Printable path) (trace : List Access) :
    Formed num escaped ((h.feedAll e trace).1.statsObject showDouble path) ↔
      ∀ x ∈ (h.feedAll e trace).1.reals, num (showDouble x).toList := by
  apply CacheHierarchy.formed_statsObject hnum _ hpath
  intro c hc
  rcases fed_names hok trace c hc with hname | hname <;> rw [hname] <;> rfl

end

theorem json_output (order : HashOrder UInt64 ℕ) (stod : String → Except NumberError ℚ)
    (showDouble showFixed : ℚ → String) (ulongBits : ℕ) (files : String → Option (List Char))
    (e : RandStream) (a : Access) (prog : String) (args : List String) (o : Options)
    (h : CacheHierarchy BuiltinPolicy)
    (hok : configure order stod (fun path => (files path).isSome) args = .ok (o, h))
    (hjson : o.jsonOut = true) (hquiet : o.verbose = false) (hpath : Printable o.tracePath.toList)
    (hshow : ∀ x, isNumber (showDouble x).toList = true) :
    let h' := (h.feedAll e (records ulongBits ((files o.tracePath).getD []))).1
    ∃ text x, main order stod showDouble showFixed ulongBits files e a prog args = .exit 0 (utf8 text) "" ∧
      readDocument text = some x ∧ x = h'.statsObject showDouble o.tracePath.toList ∧
      ∀ i c, h'.levels.caches[i]? = some c → ∀ f ∈ CacheHierarchy.counters,
        ((((x.get "levels").bind (Json.item i)).bind (Json.get f.1)).bind Json.natural) =
          some (f.2 c.2.stats) := by
  intro h'
  have hproper : Proper escaped (h'.statsObject showDouble o.tracePath.toList) :=
    (formed_json (fun _ => id) hok hpath _).mpr fun x _ => hshow x
  refine ⟨_, _, main_json hok hjson hquiet, readDocument_write hproper (by simp), rfl, ?_⟩
  intro i c hc f hf
  have hlevel : (h'.statsObject showDouble o.tracePath.toList).get "levels" = some (.array
      (h'.levels.caches.map (CacheHierarchy.levelObject showDouble h'.levels.1.stats.accesses))) := rfl
  rw [hlevel, Option.bind_some, Json.item, List.getElem?_map, hc]
  exact CacheHierarchy.levelObject_counters showDouble _ c f hf

theorem json_output_load :
    ∃ text x, main .newestFirst (fun _ => .ok 1) (fun _ => "1") toString 64
        (fun _ => some [' ', 'L', ' ', '8']) RandStream.zeros ⟨.Read, 0, 0⟩ "sim"
        ["--trace", "t", "--l1-size", "16", "--l1-block", "4", "--json"] = .exit 0 (utf8 text) "" ∧
      readDocument text = some x := by
  have hok : ∃ o h, configure .newestFirst (fun _ => .ok 1) (fun _ => true)
      ["--trace", "t", "--l1-size", "16", "--l1-block", "4", "--json"] = .ok (o, h) ∧
        o.jsonOut = true ∧ o.verbose = false ∧ Printable o.tracePath.toList :=
    ⟨_, _, rfl, rfl, rfl, rfl⟩
  obtain ⟨o, h, hok, hjson, hquiet, hpath⟩ := hok
  obtain ⟨text, x, hmain, hread, -, -⟩ := json_output .newestFirst (fun _ => .ok 1) (fun _ => "1") toString 64
    (fun _ => some [' ', 'L', ' ', '8']) RandStream.zeros ⟨.Read, 0, 0⟩ "sim"
    ["--trace", "t", "--l1-size", "16", "--l1-block", "4", "--json"] o h hok hjson hquiet hpath fun _ => rfl
  exact ⟨text, x, hmain, hread⟩

end CommandLine

end CacheSim
