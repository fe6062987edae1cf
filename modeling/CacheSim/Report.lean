import CacheSim.Hierarchy
import CacheSim.JsonText

namespace CacheSim

open JsonText

def jsonEscape (s : List UInt8) : List UInt8 :=
  s.flatMap fun c => if c = 92 ∨ c = 34 then [92, c] else [c]

def replStr : ReplacementType → String
  | .LRU => "lru"
  | .FIFO => "fifo"
  | .Random => "random"

namespace CacheHierarchy

variable {ρ : ℕ → ℕ → Type}

/-- `showDouble` is how the stream writes a double. -/
def levelJson (showDouble : ℚ → String) (total : ℕ) (c : (geo : Geometry) × Cache ρ geo) : String :=
  let cfg := c.1.cfg
  let s := c.2.stats
  let globalRate : ℚ := if total = 0 then 0 else s.misses / total
  "\x7b\"name\":\"" ++ cfg.name ++ "\"" ++
    ",\"size\":" ++ toString cfg.sizeBytes.toNat ++
    ",\"block\":" ++ toString cfg.blockSize.toNat ++
    ",\"assoc\":" ++ toString cfg.associativity.toNat ++
    ",\"repl\":\"" ++ replStr cfg.replacement ++ "\"" ++
    ",\"write\":\"" ++ (if cfg.writePolicy = .WriteBack then "back" else "through") ++ "\"" ++
    ",\"alloc\":\"" ++ (if cfg.allocPolicy = .WriteAllocate then "allocate" else "no-allocate") ++ "\"" ++
    ",\"hitTime\":" ++ showDouble cfg.hitTime ++
    ",\"classify3c\":" ++ (if cfg.classify3C then "true" else "false") ++
    ",\"accesses\":" ++ toString s.accesses ++
    ",\"hits\":" ++ toString s.hits ++
    ",\"misses\":" ++ toString s.misses ++
    ",\"reads\":" ++ toString s.reads ++
    ",\"writes\":" ++ toString s.writes ++
    ",\"writebacks\":" ++ toString s.writebacks ++
    ",\"hitRate\":" ++ showDouble s.hitRate ++
    ",\"missRate\":" ++ showDouble s.missRate ++
    ",\"globalMissRate\":" ++ showDouble globalRate ++
    ",\"compulsory\":" ++ toString s.compulsory ++
    ",\"capacity\":" ++ toString s.capacity ++
    ",\"conflict\":" ++ toString s.conflict ++
    "\x7d"

def reportHead : String := "\x7b\"trace\":\""

def reportTail (showDouble : ℚ → String) (h : CacheHierarchy ρ) : String :=
  let total := h.levels.1.stats.accesses
  "\",\"levels\":[" ++ String.intercalate "," (h.levels.caches.map (levelJson showDouble total)) ++
    "],\"memory\":\x7b\"reads\":" ++ toString h.levels.memory.reads ++
    ",\"writes\":" ++ toString h.levels.memory.writes ++ "\x7d" ++
    ",\"memTime\":" ++ showDouble h.memTime ++
    ",\"amat\":" ++ showDouble h.computeAMAT ++
    "\x7d\n"

def reportJson (showDouble : ℚ → String) (h : CacheHierarchy ρ) (tracePath : List UInt8) : List UInt8 :=
  utf8 reportHead.toList ++ (jsonEscape tracePath ++ utf8 (h.reportTail showDouble).toList)

end CacheHierarchy

def escaped (cs : List Char) : List Char :=
  cs.flatMap fun c => if c = '\\' ∨ c = '"' then ['\\', c] else [c]

theorem escaped_cons (c : Char) (cs : List Char) :
    escaped (c :: cs) = (if c = '\\' ∨ c = '"' then ['\\', c] else [c]) ++ escaped cs :=
  List.flatMap_cons

theorem jsonEscape_plain {s : List UInt8} (h : ∀ b ∈ s, b ≠ 92 ∧ b ≠ 34) : jsonEscape s = s := by
  induction s with
  | nil => rfl
  | cons b s ih =>
    have hb := h b List.mem_cons_self
    have hs : jsonEscape s = s := ih fun b hb => h b (List.mem_cons_of_mem _ hb)
    change (if b = 92 ∨ b = 34 then [92, b] else [b]) ++ jsonEscape s = b :: s
    rw [hs, if_neg (by simp [hb.1, hb.2])]
    rfl

theorem jsonEscape_char (c : Char) :
    jsonEscape (String.utf8EncodeChar c) = utf8 (if c = '\\' ∨ c = '"' then ['\\', c] else [c]) := by
  split_ifs with hc
  · rcases hc with rfl | rfl <;> rfl
  · have hbytes : ∀ b ∈ String.utf8EncodeChar c, b ≠ 92 ∧ b ≠ 34 := by
      intro b hb
      constructor
      · rintro rfl
        exact hc (.inl (Char.toNat_inj.mp (toNat_of_mem_utf8EncodeChar hb (by decide))))
      · rintro rfl
        exact hc (.inr (Char.toNat_inj.mp (toNat_of_mem_utf8EncodeChar hb (by decide))))
    rw [jsonEscape_plain hbytes]
    exact (List.append_nil _).symm

theorem jsonEscape_utf8 (cs : List Char) : jsonEscape (utf8 cs) = utf8 (escaped cs) := by
  induction cs with
  | nil => rfl
  | cons c cs ih =>
    have happ : jsonEscape (utf8 (c :: cs)) = jsonEscape (String.utf8EncodeChar c) ++ jsonEscape (utf8 cs) :=
      List.flatMap_append
    rw [happ, jsonEscape_char, ih, escaped_cons, utf8_append]

theorem denotes_escaped {cs : List Char} (h : ∀ c ∈ cs, 0x20 ≤ c.toNat) : Denotes (escaped cs) cs := by
  induction cs with
  | nil => exact .nil
  | cons c cs ih =>
    have hcs : Denotes (escaped cs) cs := ih fun c hc => h c (List.mem_cons_of_mem _ hc)
    rw [escaped_cons]
    split_ifs with hc
    · refine .escaped ?_ hcs
      rcases hc with rfl | rfl <;> simp [escapes]
    · rw [not_or] at hc
      exact .unescaped (h c List.mem_cons_self) hc.2 hc.1 hcs

theorem read_escaped {t m rest tail cs : List Char} (h : Denotes t m)
    (ht : t ++ '"' :: rest = escaped cs ++ '"' :: tail) :
    t = escaped cs ∧ ∀ c ∈ cs, 0x20 ≤ c.toNat := by
  induction cs generalizing t m with
  | nil =>
    cases t with
    | nil => exact ⟨rfl, by simp⟩
    | cons x t =>
      -- a body has no bare quote
      obtain ⟨rfl, -⟩ := List.cons.inj ht
      cases h with
      | unescaped _ hquote => exact absurd rfl hquote
  | cons c cs ih =>
    rw [escaped_cons] at ht ⊢
    simp only [List.mem_cons, forall_eq_or_imp]
    split_ifs at ht ⊢ with hc
    · have hprint : 0x20 ≤ c.toNat := by rcases hc with rfl | rfl <;> decide
      have hu : c ≠ 'u' := by rcases hc with rfl | rfl <;> decide
      match t with
      | [] => cases (List.cons.inj ht).1
      | [x] =>
        obtain rfl := (List.cons.inj ht).1
        exact absurd h Denotes.not_slash
      | x :: y :: t =>
        obtain ⟨rfl, hrest⟩ := List.cons.inj ht
        obtain ⟨rfl, htail⟩ := List.cons.inj hrest
        obtain ⟨m', h'⟩ := h.after_escape hu
        obtain ⟨rfl, hcs⟩ := ih h' htail
        exact ⟨rfl, hprint, hcs⟩
    · rw [not_or] at hc
      match t with
      | [] => exact absurd (List.cons.inj ht).1.symm hc.2
      | x :: t =>
        obtain ⟨rfl, hrest⟩ := List.cons.inj ht
        obtain ⟨m', -, h'⟩ := h.of_plain hc.1
        obtain ⟨rfl, hcs⟩ := ih h' hrest
        exact ⟨rfl, h.printable rfl, hcs⟩

namespace CacheHierarchy

variable {ρ : ℕ → ℕ → Type}

/-- A reader finds a trace member in the output, and its text stands for the path alone. -/
def TraceReads (out : List UInt8) (path : List Char) : Prop :=
  ∃ body rest, out = utf8 (reportHead.toList ++ (body ++ '"' :: rest)) ∧ ∀ m, Denotes body m ↔ m = path

theorem reportJson_utf8 (showDouble : ℚ → String) (h : CacheHierarchy ρ) (path : List Char) :
    ∃ tail, h.reportJson showDouble (utf8 path) =
      utf8 (reportHead.toList ++ (escaped path ++ '"' :: tail)) := by
  have htail : ∃ tail, (h.reportTail showDouble).toList = '"' :: tail := by
    unfold reportTail
    simp
  obtain ⟨tail, htail⟩ := htail
  refine ⟨tail, ?_⟩
  rw [reportJson, jsonEscape_utf8, htail, utf8_append, utf8_append]

theorem TraceReads.written {showDouble : ℚ → String} {h : CacheHierarchy ρ} {path : List Char}
    (hread : TraceReads (h.reportJson showDouble (utf8 path)) path) : ∀ c ∈ path, 0x20 ≤ c.toNat := by
  obtain ⟨body, rest, hout, hbody⟩ := hread
  obtain ⟨tail, htail⟩ := h.reportJson_utf8 showDouble path
  rw [htail] at hout
  have hsame := List.append_cancel_left (utf8_injective hout)
  exact (read_escaped ((hbody path).mpr rfl) hsame.symm).2

theorem trace_survives_iff (showDouble : ℚ → String) (h : CacheHierarchy ρ) (path : List Char) :
    TraceReads (h.reportJson showDouble (utf8 path)) path ↔ ∀ c ∈ path, 0x20 ≤ c.toNat := by
  constructor
  · exact TraceReads.written
  · intro hpath
    obtain ⟨tail, htail⟩ := h.reportJson_utf8 showDouble path
    refine ⟨escaped path, tail, htail, ?_⟩
    intro m
    constructor
    · exact fun hm => hm.unique (denotes_escaped hpath)
    · rintro rfl
      exact denotes_escaped hpath

theorem trace_tab :
    let h := fresh .newestFirst builtinPolicies goldenGeometry [] 100
    jsonEscape (utf8 ['a', '\t', 'b']) = [97, 9, 98] ∧
      (¬∃ m, Denotes ['a', '\t', 'b'] m) ∧
      ¬TraceReads (h.reportJson toString (utf8 ['a', '\t', 'b'])) ['a', '\t', 'b'] := by
  intro h
  refine ⟨rfl, ?_, ?_⟩
  · rintro ⟨m, hm⟩
    obtain ⟨m', -, hm'⟩ := hm.of_plain (by decide)
    exact absurd (hm'.printable rfl) (by decide)
  · intro hread
    exact absurd (hread.written '\t' (by simp)) (by decide)

end CacheHierarchy

end CacheSim
