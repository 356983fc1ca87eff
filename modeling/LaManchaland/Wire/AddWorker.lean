import LaManchaland.Api.AddWorker
import LaManchaland.Lib.Split
import LaManchaland.Wire.Load
import LaManchaland.Wire.Message

/-!
# A worker that is typed into the page

`addWorker` sends what the form holds, `handleAddWorker` decodes it and stores the worker, and the answer to
`GET /api/workers` brings it back. On this way a port is a double, its shortest decimal, an integer of 64 bits, the
digits of that, and a double again, and a text loses the halves of surrogate pairs that stand alone in it (`sentText`).

`addWorker_echo`: a form is accepted exactly when it has a host and a port that is not 0 and below `2 ^ 63`, and then
the page gets the worker back with the very number that it has sent and with the host as Go has it, which is the typed
one exactly when no such half is in it. A refused form changes nothing.
-/

namespace LaManchaland.Wire

open JsonText (Value Doc CodePoint Piece codePoint codePoints)
open JsJson (stringify reread reread_text readDoc_stringify)
open Decimal (numberText)
open Digits (decValue)
open Float64 (IsDouble)
open GoStruct
open Keyed (OwnKeys)
open GoJson (toRune goString_eq_iff)
open Ui (isSpace)
open Ui.Chat (Text)
open Ui.ModelSettings (sign negate IsWhole isWhole_digits ofRat_negate)
open Api (Controller AddRequest Response handleAddWorker accepted storedName)

/-! ## The form -/

/-- The fields of the form; in a text, halves of surrogate pairs may stand alone. -/
structure Form where
  host : List CodePoint
  port : String
  name : List CodePoint

/-- `trim`. -/
def trim (s : List CodePoint) : List CodePoint := Split.trim (fun p => isSpace (toRune p)) s

/-- `parseInt` with the radix 10. -/
def parseInt10 (value : String) : JsNum :=
  let (negative, s) := sign (value.toList.dropWhile isSpace)
  let digits := s.takeWhile Char.isDigit
  if digits = [] then .nan else .ofRat (negate negative (decValue digits))

/-- The object that `addWorker` writes. -/
def addObject (f : Form) : Value :=
  object [("host", .str (trim f.host)), ("port", numberValue (parseInt10 f.port).toJSON), ("name", .str (trim f.name))]

def addBody (f : Form) : List UInt8 := Utf8.encode (stringify (addObject f))

/-- The struct that `handleAddWorker` decodes a POST into. -/
def addFields : List (StructField AddRequest) :=
  [strField "host" fun v req => { req with host := v }, intField "port" fun n req => { req with port := n },
    strField "name" fun v req => { req with name := v }]

/-- The request of a body. -/
def addRequest (body : List UInt8) : Option AddRequest := decode addFields ⟨"", 0, ""⟩ body

/-- `addWorker` after its request: `none` when it goes on to `fetchInitialData`, and the alert otherwise. -/
def afterAdd (resp : Response (List (String × String))) : Option Text :=
  if 200 ≤ resp.status ∧ resp.status < 300 then none else some "Failed to add worker".toList

/-- The form has a host, and its port is not 0 and fits into an int. -/
structure FilledIn (f : Form) : Prop where
  host : trim f.host ≠ []
  port : ∃ v, parseInt10 f.port = .fin v ∧ v ≠ 0 ∧ |v| < 2 ^ 63

/-- A text as Go has it: half of a surrogate pair that stands alone becomes U+FFFD. -/
def sentText (s : List CodePoint) : String := goText (reread s)

/-- The request of such a form. -/
def typedRequest (f : Form) : AddRequest where
  host := sentText (trim f.host)
  port := goInt (parseInt10 f.port)
  name := sentText (trim f.name)

/-! ## The request -/

section Request

variable (f : Form)

/-- **A text arrives as it is** exactly when no half of a surrogate pair stands alone in it. -/
theorem key_sentText_iff (s : List CodePoint) :
    key (sentText s) = reread s ↔ ∀ p ∈ reread s, p.isSurrogate = false := by
  rw [← goString_eq_iff, key, sentText, goText, String.toList_ofList, List.map_map]
  rfl

theorem key_sentText {s : List CodePoint} (h : ∀ p ∈ s, p.isSurrogate = false) : key (sentText s) = s := by
  have hchars : (s.map toRune).map codePoint = s := by
    rw [List.map_map]
    exact goString_eq_iff.mpr h
  have hread : reread s = s := by rw [← hchars, reread_text]
  have hwhole := (key_sentText_iff s).mpr (by rwa [hread])
  rwa [hread] at hwhole

theorem codePoints_ne_nil (piece : Piece) (l : List Piece) : codePoints (piece :: l) ≠ [] := by
  unfold codePoints
  split
  · split <;> exact List.cons_ne_nil _ _
  · exact List.cons_ne_nil _ _
  · exact List.cons_ne_nil _ _
  · rename_i h
    cases h

theorem sentText_eq_empty_iff {s : List CodePoint} : sentText s = "" ↔ s = [] := by
  constructor
  · intro h
    cases s with
    | nil => rfl
    | cons p s =>
      have hread : reread (p :: s) = [] := by simpa [sentText, goText] using h
      exact absurd hread (codePoints_ne_nil _ _)
  · rintro rfl
    rfl

/-- A string of the page in a string field. -/
theorem set_sentText {σ : Type} (name : String) (put : String → σ → σ) (s : List CodePoint) (x : σ) :
    (strField name put).set (Json.map numberText reread (.str s)) x = some (put (sentText s) x) :=
  rfl

theorem isWhole_parseInt10 (value : String) : IsWhole (parseInt10 value) := by
  unfold parseInt10
  split
  exact isWhole_digits _ _ _

theorem depth_add : (addObject f).depth ≤ GoJson.maxNestingDepth := by
  refine le_trans (b := 1) (depth_object_le (List.forall_mem_cons.mpr ⟨le_refl 0, List.forall_mem_cons.mpr
    ⟨?_, List.forall_mem_singleton.mpr (le_refl 0)⟩⟩)) (by decide)
  cases (parseInt10 f.port).toJSON <;> exact le_refl 0

/-- **What becomes of the body of the form.** -/
theorem addRequest_addBody :
    addRequest (addBody f) = if Fits (parseInt10 f.port) then some (typedRequest f) else none := by
  have hdepth : ¬GoJson.maxNestingDepth < (Json.map numberText reread (addObject f)).depth := by
    rw [Json.depth_map]
    exact not_lt.mpr (depth_add f)
  rw [addRequest, decode, addBody, Utf8.decode_encode, readDoc_stringify, Option.bind_some, if_neg hdepth, addObject,
    object, Json.map_obj, decodeDoc]
  simp only [List.map_cons, List.map_nil, Prod.map_apply, id_eq, List.foldlM_cons, List.foldlM_nil]
  simp only [Option.bind_eq_bind]
  rw [setMember_key rfl, set_sentText, Option.bind_some, setMember_key rfl,
    set_intField _ _ _ (isWhole_parseInt10 f.port) rfl]
  split
  · rw [Option.bind_some, setMember_key rfl, set_sentText]
    rfl
  · rfl

end Request

/-! ## There and back -/

section Echo

/-- **A port that goes there and back** is the number that it was, also beyond 53 bits. -/
theorem ofRat_goInt {v : ℚ} (h : IsWhole (.fin v)) : Ui.ModelSettings.Num.ofRat (goInt (.fin v)) = .fin v := by
  obtain ⟨hdouble, n, rfl⟩ := h
  have hexp : 0 ≤ (Decimal.shortest (n : ℚ).nnabs).exp := by
    have hmag := Ui.ModelSettings.nnabs_intCast n
    have hdouble' : IsDouble ((n.natAbs : ℚ≥0) : ℚ) := by
      rw [← hmag, Rat.coe_nnabs]
      exact Ui.ModelSettings.isDouble_abs hdouble
    rw [hmag]
    exact Decimal.exp_shortest (Float64.nearest_of_isDouble hdouble')
  have hint : (goInt (.fin n) : ℚ) = negate ((n : ℚ) < 0) ((wholeValue (n : ℚ).nnabs : ℕ) : ℚ) := by
    by_cases hneg : (n : ℚ) < 0 <;> simp [goInt, negate, hneg]
  have hback := ofRat_negate hdouble
  rwa [value_eq_wholeValue hexp, NNRat.cast_natCast, ← hint] at hback

theorem goInt_eq_zero_iff {v : ℚ} (h : IsWhole (.fin v)) : goInt (.fin v) = 0 ↔ v = 0 := by
  have hzero : Ui.ModelSettings.Num.ofRat (0 : ℤ) = .fin (0 : ℤ) := by
    refine Ui.ModelSettings.Num.ofRat_of_round (Float64.round_of_isDouble ?_)
    exact_mod_cast Float64.isDouble_natCast (n := 0) (by decide)
  constructor
  · intro hv
    have hback := ofRat_goInt h
    rw [hv, hzero, Ui.ModelSettings.Num.fin.injEq] at hback
    exact_mod_cast hback.symm
  · rintro rfl
    exact_mod_cast goInt_intCast (n := 0) (by decide)

variable {f : Form}

/-- A form that is filled in is accepted, -/
theorem accepted_of_filled (h : FilledIn f) : accepted .post (addRequest (addBody f)) = some (typedRequest f) := by
  obtain ⟨v, hv, hne, hlt⟩ := h.port
  have hwhole : IsWhole (.fin v) := hv ▸ isWhole_parseInt10 f.port
  have hfits : Fits (parseInt10 f.port) := by
    rw [hv]
    exact hlt
  have hhost : (typedRequest f).host ≠ "" := mt sentText_eq_empty_iff.mp h.host
  have hport : (typedRequest f).port ≠ 0 := by
    rw [typedRequest, hv]
    exact mt (goInt_eq_zero_iff hwhole).mp hne
  rw [addRequest_addBody, if_pos hfits, accepted]
  exact if_pos ⟨rfl, hhost, hport⟩

/-- and no other one. -/
theorem accepted_of_not_filled (h : ¬FilledIn f) : accepted .post (addRequest (addBody f)) = none := by
  rw [addRequest_addBody]
  split
  · rename_i hfits
    refine if_neg fun hacc => h ⟨mt sentText_eq_empty_iff.mpr hacc.2.1, ?_⟩
    have hport : goInt (parseInt10 f.port) ≠ 0 := hacc.2.2
    have hwhole := isWhole_parseInt10 f.port
    cases hv : parseInt10 f.port with
    | fin v =>
      rw [hv] at hport hfits hwhole
      exact ⟨v, rfl, mt (goInt_eq_zero_iff hwhole).mpr hport, hfits⟩
    | _ =>
      rw [hv] at hport
      exact absurd rfl hport
  · rfl

theorem mem_getWorkers {d : Discovery} {w : WorkerInfo} : w ∈ d.getWorkers ↔ ∃ key, d.workers.lookup key = some w := by
  constructor
  · intro h
    obtain ⟨⟨key, v⟩, hmem, rfl⟩ := List.mem_map.mp h
    exact ⟨key, AList.mem_lookup_iff.mpr hmem⟩
  · rintro ⟨key, h⟩
    exact List.mem_map.mpr ⟨⟨key, w⟩, AList.mem_lookup_iff.mp h, rfl⟩

theorem floatLoads_addManualWorker {d : Discovery} (h : FloatLoads d) (now : Nat) (host : String) (port : Int)
    (name : String) : FloatLoads (d.addManualWorker now host port name) := by
  intro w hw
  obtain ⟨key, hkey⟩ := mem_getWorkers.mp hw
  have hacts := (RegistryOp.addManualWorker now host port name).actsAt (d := d)
  by_cases hown : key = endpoint host port
  · subst hown
    have heffect := hacts.here.symm.trans hkey
    cases hold : d.workers.lookup (endpoint host port) with
    | none =>
      rw [RegistryOp.key, hold] at heffect
      cases heffect
      exact_mod_cast Float64.isDouble_natCast (n := 0) (by decide)
    | some old =>
      rw [RegistryOp.key, hold] at heffect
      cases heffect
      exact h old (mem_getWorkers.mpr ⟨_, hold⟩)
  · exact h w (mem_getWorkers.mpr ⟨key, (hacts.frame key hown).symm.trans hkey⟩)

/-- The answers to a POST. -/
theorem status_handleAddWorker (c : Controller) (writeFails : Nat → Bool) (now : Nat) (body : Option AddRequest) :
    (handleAddWorker c writeFails now .post body).2.status = 200 ∨
      (handleAddWorker c writeFails now .post body).2.status = 400 := by
  unfold handleAddWorker
  cases body with
  | none => exact .inr rfl
  | some req =>
    by_cases hreq : req.host = "" ∨ req.port = 0
    · simp [hreq]
    · simp [hreq]

/-- What the page gets for a form. -/
structure Echo (time : Nat → String) (c : Controller) (f : Form)
    (result : Controller × Response (List (String × String))) : Prop where
  /-- There is no alert exactly when the form is filled in; a form that is not changes nothing. -/
  accepted : afterAdd result.2 = none ↔ FilledIn f
  refused : ¬FilledIn f → result.1 = c
  /-- The worker is one of those that the engine is started with, -/
  listed : FilledIn f → endpoint (typedRequest f).host (typedRequest f).port ∈ result.1.api.rpcWorkers
  /-- and it comes back to the page: the host as it is typed (`reread` joins the halves of a pair) exactly when no half
  stands alone in it, and the port that the page has sent. -/
  echo : FilledIn f → ∃ workers, fetchedWorkers (workersBody time result.1) = some workers ∧
    ∃ w ∈ workers, w.host = sentText (trim f.host) ∧
      (key w.host = reread (trim f.host) ↔ ∀ p ∈ reread (trim f.host), p.isSurrogate = false) ∧
      ((∀ p ∈ trim f.host, p.isSurrogate = false) → key w.host = trim f.host) ∧ w.port = parseInt10 f.port ∧
      w.status = "connected" ∧ w.name = storedName c.disc (typedRequest f)

/-- **A worker that is typed into the page comes back to it**, for all texts and every state of the controller in which
the entries have their own keys and the loads are floats; the locks of the handler are taken to be free. -/
theorem addWorker_echo (time : Nat → String) (c : Controller) (hown : OwnKeys pairKey WorkerInfo.pair c.disc.workers)
    (hload : FloatLoads c.disc) (writeFails : Nat → Bool) (now : Nat) (f : Form) :
    Echo time c f (handleAddWorker c writeFails now .post (addRequest (addBody f))) := by
  by_cases hf : FilledIn f
  · obtain ⟨hdisc, hlist, hresp⟩ := Api.handleAddWorker_accepted c writeFails now (accepted_of_filled hf)
    obtain ⟨w, hw, hhost, hport, hstatus, hname⟩ := Api.lookup_addManualWorker hown now (typedRequest f)
    refine ⟨iff_of_true ?_ hf, fun h => absurd hf h, fun _ => ?_, fun _ => ?_⟩
    · rw [hresp]
      rfl
    · rw [hlist]
      exact List.mem_append_right _ List.mem_cons_self
    · have hloads := floatLoads_addManualWorker hload now (typedRequest f).host (typedRequest f).port
        (typedRequest f).fullName
      rw [← hdisc] at hloads hw
      refine ⟨_, fetchedWorkers_workersBody time hloads, heard time w,
        List.mem_map_of_mem (mem_getWorkers.mpr ⟨_, hw⟩), hhost, ?_, ?_, ?_, hstatus, hname⟩
      · show key w.host = _ ↔ _
        rw [hhost]
        exact key_sentText_iff _
      · intro h
        show key w.host = _
        rw [hhost]
        exact key_sentText h
      obtain ⟨v, hv, -⟩ := hf.port
      have hwhole : IsWhole (.fin v) := hv ▸ isWhole_parseInt10 f.port
      show Ui.ModelSettings.Num.ofRat w.port = _
      rw [hport, typedRequest, hv, ofRat_goInt hwhole]
  · obtain ⟨hsame, hstatus⟩ := Api.handleAddWorker_refused c writeFails now (accepted_of_not_filled hf)
    refine ⟨iff_of_false ?_ hf, fun _ => hsame, fun h => absurd h hf, fun h => absurd h hf⟩
    rcases status_handleAddWorker c writeFails now (addRequest (addBody f)) with h | h
    · exact absurd h hstatus
    · rw [afterAdd, if_neg (by rw [h]; decide)]
      exact Option.some_ne_none _

end Echo

/-- A port beyond 53 bits. -/
def largeForm : Form := ⟨key " 10.0.0.7 ", "9007199254740993", []⟩

theorem addWorker_echo_large : Echo (fun _ => "2024-01-01T00:00:00Z") namedController largeForm
    (handleAddWorker namedController (fun _ => false) 1 .post (addRequest (addBody largeForm))) := by
  have hown : OwnKeys pairKey WorkerInfo.pair namedController.disc.workers :=
    ownKeys_run (d := newDiscovery) (.addManualWorker 0 _ _ _) Keyed.ownKeys_empty
  have hload : FloatLoads namedController.disc :=
    floatLoads_addManualWorker (d := newDiscovery) (fun w hw => by cases hw) 0 _ _ _
  exact addWorker_echo _ _ hown hload _ _ _

end LaManchaland.Wire
