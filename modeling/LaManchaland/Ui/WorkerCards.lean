import LaManchaland.Lib.Html
import LaManchaland.Registry
import LaManchaland.Ui.Topology
import LaManchaland.Worker

/-!
# The worker cards of the page

`renderWorkers` fills a template with the workers and assigns the text to the grid's `innerHTML`. The text is made of
pieces, the literals of the template and the fields of the workers, so that every character is known to come from the
template or from data. Of the fields the source escapes the name alone.

No character of a field becomes markup, and the tags and attributes are those of harmless workers, exactly when no host
has a `<` that begins markup: `injectionFree_iff` for the workers that the controller can hold (`Held`), whose other
fields are set by the registry (`held_registry`).
-/

namespace LaManchaland.Ui.WorkerCards

open Html
open Ui.Topology (orElse)

/-! ## The template -/

/-- A part of a text: a literal of the template, or a field of a worker. -/
inductive Piece where
  | lit (s : String)
  | field (s : String)

def Piece.string : Piece → String
  | .lit s => s
  | .field s => s

def Piece.chars : Piece → List Marked
  | .lit s => s.toList.map (·, false)
  | .field s => s.toList.map (·, true)

/-- The text that is assigned. -/
def html (ps : List Piece) : String := String.join (ps.map Piece.string)

/-- Its characters, with what comes from data. -/
def chars (ps : List Piece) : List Marked := ps.flatMap Piece.chars

/-- Without their marks they are the text. -/
theorem map_fst_chars (ps : List Piece) : (chars ps).map Prod.fst = (html ps).toList := by
  have hpiece : ∀ p : Piece, p.chars.map Prod.fst = p.string.toList := by
    rintro (s | s) <;> exact (List.map_map ..).trans (List.map_id _)
  rw [chars, html, String.toList_join, List.map_flatMap, List.flatMap_map]
  simp only [hpiece]

/-- How the page writes numbers: `number` in a template, `formatBytes`, and `toFixed(1)`. -/
structure Format where
  number : Int → String
  number_chars : ∀ n, ∀ c ∈ (number n).toList, c = '-' ∨ c.isDigit = true
  formatBytes : UInt64 → String
  toFixed1 : Rat → String

def escapeHtml (text : String) : String :=
  String.ofList (text.toList.flatMap fun c =>
    if c = '&' then "&amp;".toList else if c = '<' then "&lt;".toList else if c = '>' then "&gt;".toList else [c])

def cardHead : String := "
            <div class=\"worker-card\">
                <div class=\"worker-card-header\">
                    <div class=\"worker-card-title\">
                        <div class=\"worker-icon-sm\">W</div>
                        <div>
                            <div class=\"worker-name\">"

def nameToAddress : String := "</div>
                            <div class=\"worker-address\">"

def addressToChip : String := "</div>
                        </div>
                    </div>
                    <span class=\"m3-chip "

def chipToStatus : String := "\">"

def statusToRam : String := "</span>
                </div>
                <div class=\"worker-stats\">
                    <div class=\"worker-stat\">
                        <span class=\"worker-stat-label\">RAM</span>
                        <span class=\"worker-stat-value\">"

def ramToVram : String := "</span>
                    </div>
                    <div class=\"worker-stat\">
                        <span class=\"worker-stat-label\">VRAM</span>
                        <span class=\"worker-stat-value\">"

def vramToGpu : String := "</span>
                    </div>
                    <div class=\"worker-stat\">
                        <span class=\"worker-stat-label\">GPU</span>
                        <span class=\"worker-stat-value\">"

def gpuToCpu : String := "</span>
                    </div>
                    <div class=\"worker-stat\">
                        <span class=\"worker-stat-label\">CPU</span>
                        <span class=\"worker-stat-value\">"

def cardFoot : String := "</span>
                    </div>
                </div>
            </div>
        "

def emptyState : String := "
                <div class=\"empty-state\">
                    <span class=\"material-symbols-rounded empty-icon\">devices_off</span>
                    <p class=\"empty-title\">No workers connected</p>
                    <span class=\"empty-desc\">Start a worker instance or add one manually</span>
                </div>
            "

section Card

variable (fmt : Format) (w : WorkerInfo)

def ramText : String :=
  if w.ramTotal ≠ 0 then fmt.formatBytes w.ramUsed ++ " / " ++ fmt.formatBytes w.ramTotal else "N/A"

def vramText : String :=
  if w.vramTotal ≠ 0 then fmt.formatBytes w.vramUsed ++ " / " ++ fmt.formatBytes w.vramTotal else "N/A"

def cpuText : String := if w.cpuLoad ≠ 0 then fmt.toFixed1 w.cpuLoad ++ "%" else "N/A"

/-- The template of one worker. -/
def card : List Piece :=
  [.lit cardHead, .field (escapeHtml (orElse w.name "worker")), .lit nameToAddress, .field w.host, .lit ":",
    .lit (fmt.number w.port), .lit addressToChip, .field (orElse w.status "available"), .lit chipToStatus,
    .field (orElse w.status "available"), .lit statusToRam, .lit (ramText fmt w), .lit ramToVram,
    .lit (vramText fmt w), .lit vramToGpu, .field (orElse w.gpuName "N/A"), .lit gpuToCpu, .lit (cpuText fmt w),
    .lit cardFoot]

end Card

/-- `renderWorkers`: what is assigned to the grid. -/
def renderWorkers (fmt : Format) (workers : List WorkerInfo) : List Piece :=
  if workers.length = 0 then [.lit emptyState] else workers.flatMap (card fmt)

/-! ## The literals -/

/-- The characters of a literal. -/
def lit (s : String) : List Marked := s.toList.map (·, false)

/-- A literal that leaves no tag open. -/
def LitClosed (s : String) : Prop := (start.run (lit s)).1 = start

/-- A literal is run on its list of characters. -/
theorem run_ofList {l : List Char} {m : Machine} (h : (start.run (l.map (·, false))).1 = m) :
    (start.run (lit (String.ofList l))).1 = m := by
  rw [lit, String.toList_ofList]
  exact h

section Literals

set_option maxRecDepth 10000

theorem cardHead_closed : LitClosed cardHead := run_ofList (by decide +kernel)

theorem nameToAddress_closed : LitClosed nameToAddress := run_ofList (by decide +kernel)

theorem statusToRam_closed : LitClosed statusToRam := run_ofList (by decide +kernel)

theorem ramToVram_closed : LitClosed ramToVram := run_ofList (by decide +kernel)

theorem vramToGpu_closed : LitClosed vramToGpu := run_ofList (by decide +kernel)

theorem gpuToCpu_closed : LitClosed gpuToCpu := run_ofList (by decide +kernel)

theorem cardFoot_closed : LitClosed cardFoot := run_ofList (by decide +kernel)

theorem emptyState_closed : LitClosed emptyState := run_ofList (by decide +kernel)

/-- The machine in the class of the chip. -/
def inChip : Html.Machine :=
  ⟨.valueDouble, [], ⟨false, lit "span", [(lit "class", lit "m3-chip ")], false⟩⟩

theorem addressToChip_run : (start.run (lit addressToChip)).1 = inChip := run_ofList (by decide +kernel)

end Literals

/-! ## A card -/

/-- The characters of a field. -/
def data (s : String) : List Marked := s.toList.map (·, true)

theorem mem_lit {s : String} {c : Marked} (h : c ∈ lit s) : c.1 ∈ s.toList ∧ c.2 = false := by
  obtain ⟨d, hd, rfl⟩ := List.mem_map.mp h
  exact ⟨hd, rfl⟩

theorem mem_data {s : String} {c : Marked} (h : c ∈ data s) : c.1 ∈ s.toList ∧ c.2 = true := by
  obtain ⟨d, hd, rfl⟩ := List.mem_map.mp h
  exact ⟨hd, rfl⟩

theorem lit_data (s : String) : (lit s).filter (·.2) = [] :=
  List.filter_eq_nil_iff.mpr fun c hc => by simp [(mem_lit hc).2]

theorem lit_clean {s : String} (h : LitClosed s) : Clean (lit s) (skeleton (start.run (lit s)).2) :=
  clean_unmarked h fun _ hc => (mem_lit hc).2

/-- A text that the page writes, in which there is no `<`. -/
theorem lit_plain {s : String} (h : '<' ∉ s.toList) : Clean (lit s) [] :=
  clean_plain fun _ hc hlt => h (hlt ▸ (mem_lit hc).1)

theorem data_plain {s : String} (h : '<' ∉ s.toList) : Clean (data s) [] :=
  clean_plain fun _ hc hlt => h (hlt ▸ (mem_data hc).1)

theorem number_plain (fmt : Format) (n : Int) : '<' ∉ (fmt.number n).toList := by
  intro hlt
  rcases fmt.number_chars n '<' hlt with h | h
  · exact absurd h (by decide)
  · exact absurd h (by decide)

theorem escapeHtml_plain (text : String) : '<' ∉ (escapeHtml text).toList := by
  intro h
  rw [escapeHtml, String.toList_ofList, List.mem_flatMap] at h
  obtain ⟨c, -, h⟩ := h
  split at h
  · exact absurd h (by decide)
  split at h
  · exact absurd h (by decide)
  split at h
  · exact absurd h (by decide)
  · rename_i hc _
    exact hc (List.mem_singleton.mp h).symm

/-- A host and the colon after it. -/
theorem host_clean {host : String} (h : safe host.toList = true) : Clean (data host ++ lit ":") [] := by
  have hcolon : lit ":" = [(':', false)] := by decide
  have hchars : (data host ++ lit ":").map Prod.fst = host.toList ++ [':'] := by
    rw [hcolon, List.map_append, data, List.map_map]
    exact congrArg (· ++ [':']) (List.map_id host.toList)
  rw [hcolon] at hchars ⊢
  exact clean_text (closed_safe (hchars ▸ safe_append (by decide) h) (by decide))

/-- The tags up to the chip, with the class of the template. -/
def chipSkeleton : List Token :=
  skeleton (start.run (lit addressToChip)).2 ++
    [Token.tag ⟨false, lit "span", [(lit "class", lit "m3-chip ")], false⟩]

/-- The status in the class of the chip. -/
theorem chip_clean {status : String} (h : '"' ∉ status.toList) :
    Clean (lit addressToChip ++ data status ++ lit chipToStatus) chipSkeleton := by
  let chip : Tag := ⟨false, lit "span", [(lit "class", lit "m3-chip " ++ data status)], false⟩
  have haddress : start.run (lit addressToChip) = (inChip, (start.run (lit addressToChip)).2) :=
    Prod.ext addressToChip_run rfl
  have hstatus : inChip.run (data status) = (⟨.valueDouble, [], chip⟩, []) :=
    run_valueDouble fun _ hc hquote => h (hquote ▸ (mem_data hc).1)
  have hquote : Machine.run ⟨.valueDouble, [], chip⟩ (lit chipToStatus) = (start, [.tag chip]) := rfl
  refine ⟨(start.run (lit addressToChip)).2 ++ [.tag chip], ?_, ?_, ?_⟩
  · rw [Closed, run_append, run_append, haddress]
    simp only [hstatus, hquote, List.append_nil]
  · have htemplate : (lit "m3-chip " ++ data status).filter (!·.2) = lit "m3-chip " := by
      rw [List.filter_append, List.filter_eq_self.mpr fun c hc => by simp [(mem_lit hc).2],
        List.filter_eq_nil_iff.mpr fun c hc => by simp [(mem_data hc).2], List.append_nil]
    have htag : skeleton [.tag chip] = [.tag ⟨false, lit "span", [(lit "class", lit "m3-chip ")], false⟩] := by
      show [Token.tag ⟨false, lit "span", [(lit "class", (lit "m3-chip " ++ data status).filter (!·.2))], false⟩] = _
      rw [htemplate]
    rw [skeleton_append, htag, chipSkeleton]
  · have hcontent : content [.tag chip] = lit "m3-chip " ++ data status := by
      show (lit "m3-chip " ++ data status ++ []) ++ [] = _
      rw [List.append_nil, List.append_nil]
    rw [content_append, List.filter_append, unmarked_run fun c hc => (mem_lit hc).2, hcontent]
    simp only [List.filter_append, lit_data, List.nil_append, List.append_nil]

/-- The fields that the registry sets bring no markup, and no report has set the metrics. -/
structure Held (w : WorkerInfo) : Prop where
  gpuName : '<' ∉ (orElse w.gpuName "N/A").toList
  ramTotal : w.ramTotal = 0
  vramTotal : w.vramTotal = 0
  cpuLoad : w.cpuLoad = 0
  status : '"' ∉ (orElse w.status "available").toList ∧ '<' ∉ (orElse w.status "available").toList

/-- The tags of a card. -/
def cardSkeleton : List Token :=
  [cardHead, nameToAddress].flatMap (fun s => skeleton (start.run (lit s)).2) ++ chipSkeleton ++
    [statusToRam, ramToVram, vramToGpu, gpuToCpu, cardFoot].flatMap fun s => skeleton (start.run (lit s)).2

/-- The characters of a card before the host, and after the colon. -/
def beforeHost (w : WorkerInfo) : List Marked :=
  lit cardHead ++ data (escapeHtml (orElse w.name "worker")) ++ lit nameToAddress

def afterHost (fmt : Format) (w : WorkerInfo) : List Marked :=
  lit (fmt.number w.port) ++ (lit addressToChip ++ data (orElse w.status "available") ++ lit chipToStatus) ++
    data (orElse w.status "available") ++ lit statusToRam ++ lit (ramText fmt w) ++ lit ramToVram ++
    lit (vramText fmt w) ++ lit vramToGpu ++ data (orElse w.gpuName "N/A") ++ lit gpuToCpu ++ lit (cpuText fmt w) ++
    lit cardFoot

theorem chars_card (fmt : Format) (w : WorkerInfo) :
    chars (card fmt w) = beforeHost w ++ (data w.host ++ lit ":") ++ afterHost fmt w := by
  simp only [chars, card, List.flatMap_cons, List.flatMap_nil, Piece.chars, beforeHost, afterHost, lit, data,
    List.append_assoc, List.append_nil]

theorem beforeHost_clean (w : WorkerInfo) : Clean (beforeHost w)
    ([cardHead, nameToAddress].flatMap fun s => skeleton (start.run (lit s)).2) := by
  have h := ((lit_clean cardHead_closed).append (data_plain (escapeHtml_plain (orElse w.name "worker")))).append
    (lit_clean nameToAddress_closed)
  simpa only [beforeHost, List.append_nil, List.flatMap_cons, List.flatMap_nil] using h

/-- The rest of a card that the controller can hold. -/
theorem afterHost_clean (fmt : Format) {w : WorkerInfo} (hw : Held w) : Clean (afterHost fmt w)
    (chipSkeleton ++ [statusToRam, ramToVram, vramToGpu, gpuToCpu, cardFoot].flatMap fun s =>
      skeleton (start.run (lit s)).2) := by
  have hna : '<' ∉ "N/A".toList := by decide
  have hram : ramText fmt w = "N/A" := by rw [ramText, hw.ramTotal]; rfl
  have hvram : vramText fmt w = "N/A" := by rw [vramText, hw.vramTotal]; rfl
  have hcpu : cpuText fmt w = "N/A" := by rw [cpuText, hw.cpuLoad]; rfl
  have h := (lit_plain (number_plain fmt w.port)).append (chip_clean hw.status.1)
    |>.append (data_plain hw.status.2)
    |>.append (lit_clean statusToRam_closed)
    |>.append (lit_plain hna)
    |>.append (lit_clean ramToVram_closed)
    |>.append (lit_plain hna)
    |>.append (lit_clean vramToGpu_closed)
    |>.append (data_plain hw.gpuName)
    |>.append (lit_clean gpuToCpu_closed)
    |>.append (lit_plain hna)
    |>.append (lit_clean cardFoot_closed)
  simpa only [afterHost, hram, hvram, hcpu, List.nil_append, List.append_nil, List.append_assoc,
    List.flatMap_cons, List.flatMap_nil] using h

/-- **A card with a safe host is clean**, and its tags are those of every other. -/
theorem card_clean (fmt : Format) {w : WorkerInfo} (hw : Held w) (h : safe w.host.toList = true) :
    Clean (chars (card fmt w)) cardSkeleton := by
  have hcard := ((beforeHost_clean w).append (host_clean h)).append (afterHost_clean fmt hw)
  rw [chars_card, cardSkeleton, List.append_assoc ([cardHead, nameToAddress].flatMap _)]
  simpa only [List.append_nil] using hcard

/-! ## The grid -/

/-- A worker with harmless strings in the place of its own. -/
def harmless (w : WorkerInfo) : WorkerInfo := { w with name := "x", host := "x", status := "x", gpuName := "x" }

/-- The strings of the workers bring no markup into the page. -/
structure InjectionFree (fmt : Format) (workers : List WorkerInfo) : Prop where
  /-- The tags and attributes are those of harmless workers. -/
  markup : skeleton (tokens (chars (renderWorkers fmt workers))) =
    skeleton (tokens (chars (renderWorkers fmt (workers.map harmless))))
  /-- The characters of the fields all come out as text or in an attribute value. -/
  content : (content (tokens (chars (renderWorkers fmt workers)))).filter (·.2) =
    (chars (renderWorkers fmt workers)).filter (·.2)

section Grid

variable {fmt : Format}

theorem chars_append (ps ps' : List Piece) : chars (ps ++ ps') = chars ps ++ chars ps' := List.flatMap_append

/-- The tags of the grid. -/
def gridSkeleton (workers : List WorkerInfo) : List Token := workers.flatMap fun _ => cardSkeleton

/-- Cards with safe hosts are clean. -/
theorem cards_clean : ∀ {workers : List WorkerInfo}, (∀ w ∈ workers, Held w) →
    (∀ w ∈ workers, safe w.host.toList = true) →
    Clean (chars (workers.flatMap (card fmt))) (gridSkeleton workers)
  | [], _, _ => clean_nil
  | w :: workers, hheld, h => by
    rw [List.flatMap_cons, chars_append, gridSkeleton, List.flatMap_cons]
    exact (card_clean fmt (hheld w List.mem_cons_self) (h w List.mem_cons_self)).append
      (cards_clean (fun v hv => hheld v (List.mem_cons_of_mem w hv)) fun v hv => h v (List.mem_cons_of_mem w hv))

theorem held_harmless {w : WorkerInfo} (h : Held w) : Held (harmless w) where
  gpuName := show '<' ∉ (orElse "x" "N/A").toList by decide
  ramTotal := h.ramTotal
  vramTotal := h.vramTotal
  cpuLoad := h.cpuLoad
  status := show '"' ∉ (orElse "x" "available").toList ∧ '<' ∉ (orElse "x" "available").toList by decide

/-- The first card with an unsafe host: what is before the host leaves no tag open, and a colon is after it. -/
theorem exists_markup : ∀ {workers : List WorkerInfo}, (∀ w ∈ workers, Held w) →
    (∃ w ∈ workers, safe w.host.toList = false) →
    ∃ a r, ∃ w : WorkerInfo, chars (workers.flatMap (card fmt)) = a ++ data w.host ++ (':', false) :: r ∧
      (start.run a).1 = start ∧ safe w.host.toList = false
  | [], _, h => by simp at h
  | w :: workers, hheld, h => by
    rw [List.flatMap_cons, chars_append]
    cases hsafe : safe w.host.toList with
    | false =>
      obtain ⟨toks, hclosed, -⟩ := beforeHost_clean w
      refine ⟨beforeHost w, afterHost fmt w ++ chars (workers.flatMap (card fmt)), w, ?_, ?_, hsafe⟩
      · rw [chars_card]
        have hcolon : lit ":" = [(':', false)] := by decide
        simp only [hcolon, List.append_assoc, List.cons_append, List.nil_append]
      · rw [show start.run (beforeHost w) = (start, toks) from hclosed]
    | true =>
      have htail : ∃ v ∈ workers, safe v.host.toList = false := by
        obtain ⟨v, hv, hv'⟩ := h
        rcases List.mem_cons.mp hv with rfl | hv
        · rw [hsafe] at hv'
          cases hv'
        · exact ⟨v, hv, hv'⟩
      obtain ⟨a, r, v, hchars, ha, hv⟩ := exists_markup (fun v hv => hheld v (List.mem_cons_of_mem w hv)) htail
      obtain ⟨toks, hclosed, -⟩ := card_clean fmt (hheld w List.mem_cons_self) hsafe
      refine ⟨chars (card fmt w) ++ a, r, v, by rw [hchars]; simp only [List.append_assoc], ?_, hv⟩
      rw [run_append, show start.run (chars (card fmt w)) = (start, toks) from hclosed]
      exact ha

variable {workers : List WorkerInfo}

theorem renderWorkers_cards (h : workers ≠ []) : renderWorkers fmt workers = workers.flatMap (card fmt) :=
  if_neg fun hlen => h (List.length_eq_zero_iff.mp hlen)

/-- The grid without workers has no fields. -/
theorem injectionFree_nil : InjectionFree fmt [] := by
  have hchars : chars (renderWorkers fmt []) = lit emptyState := List.append_nil (lit emptyState)
  refine ⟨rfl, ?_⟩
  rw [hchars]
  exact (lit_clean emptyState_closed).tokens.2

/-- Harmless workers have the tags of a clean grid. -/
theorem skeleton_harmless (hheld : ∀ w ∈ workers, Held w) :
    skeleton (tokens (chars ((workers.map harmless).flatMap (card fmt)))) = gridSkeleton workers := by
  have hgrid : gridSkeleton (workers.map harmless) = gridSkeleton workers := List.flatMap_map ..
  rw [← hgrid]
  refine (cards_clean (fun w hw => ?_) fun w hw => ?_).tokens.1
  · obtain ⟨v, hv, rfl⟩ := List.mem_map.mp hw
    exact held_harmless (hheld v hv)
  · obtain ⟨v, hv, rfl⟩ := List.mem_map.mp hw
    exact show safe "x".toList = true by decide

theorem injectionFree_of_safe (hne : workers ≠ []) (hheld : ∀ w ∈ workers, Held w)
    (h : ∀ w ∈ workers, safe w.host.toList = true) : InjectionFree fmt workers := by
  have hclean := (@cards_clean fmt workers hheld h).tokens
  have hne' : workers.map harmless ≠ [] := fun hnil => hne (List.map_eq_nil_iff.mp hnil)
  refine ⟨?_, ?_⟩
  · rw [renderWorkers_cards hne, renderWorkers_cards hne', hclean.1, skeleton_harmless hheld]
  · rw [renderWorkers_cards hne]
    exact hclean.2

/-- A character of a host that is not safe gets lost in a tag. -/
theorem InjectionFree.safe (hne : workers ≠ []) (hheld : ∀ w ∈ workers, Held w) (h : InjectionFree fmt workers) :
    ∀ w ∈ workers, Html.safe w.host.toList = true := by
  by_contra hnot
  have hmarkup : ∃ w ∈ workers, Html.safe w.host.toList = false := by simpa using hnot
  obtain ⟨a, r, w, hchars, ha, hw⟩ := @exists_markup fmt workers hheld hmarkup
  have hhost : (data w.host).map Prod.fst = w.host.toList := by
    rw [data, List.map_map]
    exact List.map_id _
  have hlost := marks_lost (s := data w.host) (r := r) (d := (':', false)) ha (by rw [hhost, hw])
    fun c hc => (mem_data hc).2
  have hcontent := congrArg List.length h.content
  rw [renderWorkers_cards hne, hchars, ← List.countP_eq_length_filter, ← List.countP_eq_length_filter] at hcontent
  exact absurd hcontent (Nat.ne_of_lt hlost)

/-- **The grid is free of injection exactly when the hosts are safe.** -/
theorem injectionFree_iff_safe (hheld : ∀ w ∈ workers, Held w) :
    InjectionFree fmt workers ↔ ∀ w ∈ workers, safe w.host.toList = true := by
  cases workers with
  | nil => exact iff_of_true injectionFree_nil fun w hw => by cases hw
  | cons w workers => exact ⟨InjectionFree.safe (List.cons_ne_nil _ _) hheld,
      injectionFree_of_safe (List.cons_ne_nil _ _) hheld⟩

end Grid

/-! ## The registry of the controller -/

/-- A report of metrics: only a worker makes one, in its own registry. -/
def IsReport : RegistryOp → Prop
  | .updateWorkerMetrics .. => True
  | _ => False

/-- An operation of the controller keeps its workers held. -/
theorem held_run {op : RegistryOp} {d : Discovery} (hop : ¬IsReport op)
    (hd : ∀ key w, d.workers.lookup key = some w → Held w) :
    ∀ key w, (op.run d).workers.lookup key = some w → Held w := by
  intro key w hw
  by_cases hkey : key = op.key
  · rw [hkey, op.actsAt.here] at hw
    cases op with
    | addManualWorker now host port name =>
      cases hold : d.workers.lookup (endpoint host port) with
      | none =>
        rw [RegistryOp.key, hold] at hw
        cases hw
        exact ⟨show '<' ∉ (orElse "" "N/A").toList by decide, rfl, rfl, rfl,
          show '"' ∉ (orElse "connected" "available").toList ∧ '<' ∉ (orElse "connected" "available").toList by decide⟩
      | some v =>
        have hv := hd _ v hold
        rw [RegistryOp.key, hold] at hw
        cases hw
        exact { hv with status :=
          show '"' ∉ (orElse "connected" "available").toList ∧ '<' ∉ (orElse "connected" "available").toList by decide }
    | scan now entry =>
      cases hw
      exact ⟨show '<' ∉ (orElse "" "N/A").toList by decide, rfl, rfl, rfl,
        show '"' ∉ (orElse "available" "available").toList ∧ '<' ∉ (orElse "available" "available").toList by decide⟩
    | updateWorkerMetrics now key metrics => exact absurd trivial hop
    | removeWorker host port => cases hw
  · rw [op.actsAt.frame key hkey] at hw
    exact hd key w hw

theorem held_foldl : ∀ (ops : List RegistryOp) {d : Discovery}, (∀ op ∈ ops, ¬IsReport op) →
    (∀ key w, d.workers.lookup key = some w → Held w) →
    ∀ key w, (ops.foldl RegistryOp.run d).workers.lookup key = some w → Held w
  | [], _, _, hd => hd
  | op :: ops, _, hops, hd =>
    held_foldl ops (fun op' hop' => hops op' (List.mem_cons_of_mem op hop')) (held_run (hops op List.mem_cons_self) hd)

/-- The workers of the controller. -/
theorem held_registry {ops : List RegistryOp} (hops : ∀ op ∈ ops, ¬IsReport op) :
    ∀ w ∈ (registry ops).getWorkers, Held w := by
  intro w hw
  obtain ⟨⟨key, v⟩, hmem, rfl⟩ := List.mem_map.mp hw
  have hempty : ∀ key w, newDiscovery.workers.lookup key = some w → Held w := by
    intro key w h
    rw [newDiscovery, AList.lookup_empty] at h
    cases h
  exact held_foldl ops hops hempty key v (AList.mem_lookup_iff.mpr hmem)

/-- Integers in decimal, as the page writes those of a port. -/
def decimalFormat : Format where
  number := Llmserver.itoa
  number_chars := itoa_chars
  formatBytes n := toString n.toNat ++ " B"
  toFixed1 := Worker.fixed1

/-- **No string of a worker becomes markup exactly when no host has a `<` that begins markup**, for the workers that the
controller holds after any operations, in any order. -/
theorem injectionFree_iff (fmt : Format) (ops : List RegistryOp) (hops : ∀ op ∈ ops, ¬IsReport op)
    {workers : List WorkerInfo} (hworkers : workers.Perm (registry ops).getWorkers) :
    InjectionFree fmt workers ↔ ∀ w ∈ workers, safe w.host.toList = true :=
  injectionFree_iff_safe fun w hw => held_registry hops w (hworkers.mem_iff.mp hw)

/-- Markup in the name is shown as text. -/
theorem injectionFree_iff_address : InjectionFree decimalFormat [manualWorker 0 "10.0.0.7" 50052 "<b>gpu</b>"] :=
  (injectionFree_iff decimalFormat [.addManualWorker 0 "10.0.0.7" 50052 "<b>gpu</b>"] (by simp [IsReport])
    (.refl _)).mpr (List.forall_mem_singleton.mpr (by decide))

/-- The addition of a worker whose host is an image tag. -/
def imageOps : List RegistryOp := [.addManualWorker 0 "<img src=x onerror=alert(1)>" 50052 "gpu"]

/-- The host of a manual worker gets into the page as a tag. -/
theorem not_injectionFree : (∀ op ∈ imageOps, ¬IsReport op) ∧
    ¬InjectionFree decimalFormat (registry imageOps).getWorkers := by
  have hops : ∀ op ∈ imageOps, ¬IsReport op := by simp [imageOps, IsReport]
  refine ⟨hops, fun h => ?_⟩
  have hsafe := (injectionFree_iff_safe (held_registry hops)).mp h _ List.mem_cons_self
  exact absurd hsafe (by decide)

end LaManchaland.Ui.WorkerCards
