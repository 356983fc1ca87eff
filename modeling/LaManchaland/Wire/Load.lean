import LaManchaland.Api.FullLoad
import LaManchaland.Lib.GoStruct
import LaManchaland.Llmserver.Argv
import LaManchaland.Wire.Chat

/-!
# The settings of the page on their way to the command line

`loadModel` writes its body with `JSON.stringify`, `handleModel` decodes it into a struct of strings and ints, its
goroutine hands the numbers to the manager, and the engine gets them as arguments. A number that is not finite is `null`
on the wire, which the decoder takes for an absent field. The paths are texts without halves of surrogate pairs.

`load_answered`: a load of the page is accepted exactly when its four numbers are below `2 ^ 63`; otherwise the page
gives no reason. `load_launches`: what is typed into the dialog as integers of 53 bits, and the paths, are what the
arguments of the engine say when the load runs alone, but for the values that stand for a default or that the handler
skips.
-/

namespace LaManchaland.Wire

open JsonText (Value Doc readText)
open JsJson (stringify reread readDoc_stringify)
open Decimal (numberText)
open Float64 (IsDouble)
open GoStruct
open Ui.ModelSettings (Settings Fields loadBody saveModelSettings lit IsWhole isWhole_parseInt isWhole_or
  isWhole_ofInt lit_natCast nnabs_intCast isDouble_abs)
open Ui.Chat (Text)
open Api (ModelPost ModelRequest Controller Outside Response loadArgv loadServer copyWorkers)
open Llmserver (CanLaunch Env Options readArgs)

/-! ## The body -/

/-- The object that `loadModel` writes. -/
def loadObject (path mmproj : Text) (s : Settings) : Value :=
  object ([("path", textValue path), ("mmproj", textValue mmproj), ("action", textValue "load".toList)] ++
    (loadBody s).map (Prod.map id numberValue))

def loadRequest (path mmproj : Text) (s : Settings) : List UInt8 := Utf8.encode (stringify (loadObject path mmproj s))

/-- The struct that `handleModel` decodes a POST into. -/
def modelFields : List (StructField ModelPost) :=
  [strField "path" fun v req => { req with path := v }, strField "mmproj" fun v req => { req with mmproj := v },
    strField "action" fun v req => { req with action := v }, intField "ctx_size" fun n req => { req with ctxSize := n },
    intField "n_gpu_layers" fun n req => { req with nGPULayers := n },
    intField "threads" fun n req => { req with threads := n },
    intField "n_predict" fun n req => { req with nPredict := n }]

/-- The request of a body. -/
def modelRequest (body : List UInt8) : ModelRequest := .post (decode modelFields ⟨"", "", "", 0, 0, 0, 0⟩ body)

/-- The message of `loadModel` for a response that is not ok. -/
def loadAlert (convert : Value → Text) (body : List UInt8) : Text :=
  let message := ((readText (Utf8.decode body)).bind (property "error")).bind (property "message")
  "Failed to load model: ".toList ++ message.elim "unknown error".toList fun message =>
    if truthy message then toText convert message else "unknown error".toList

/-- What `respondJSON` writes for a map of strings. -/
def jsonBody (body : List (String × String)) : List UInt8 :=
  Utf8.encode (JsonText.write numberText GoJson.quote (object (body.map (Prod.map id fun t => textValue t.toList)))
    ++ ['\n'])

/-- `loadModel` after its request: `none` when it goes on to `fetchInitialData`, and the alert otherwise. -/
def afterLoad (convert : Value → Text) (resp : Response (List (String × String))) : Option Text :=
  if 200 ≤ resp.status ∧ resp.status < 300 then none else some (loadAlert convert (jsonBody resp.body))

/-! ## The numbers -/

/-- What the decoder makes of a number; `null` leaves the zero value. -/
def goInt : Ui.ModelSettings.Num → ℤ
  | .fin v => if v < 0 then -(wholeValue v.nnabs : ℤ) else wholeValue v.nnabs
  | _ => 0

/-- The number is `null` on the wire, or it is below `2 ^ 63`. -/
def Fits : Ui.ModelSettings.Num → Prop
  | .fin v => |v| < 2 ^ 63
  | _ => True

instance : ∀ a, Decidable (Fits a)
  | .fin v => inferInstanceAs (Decidable (|v| < 2 ^ 63))
  | .nan => isTrue trivial
  | .inf _ => isTrue trivial

/-- The numbers of the body. -/
def loadNumbers (s : Settings) : List Ui.ModelSettings.Num := [s.ctxSize, s.nGpuLayers, s.threads, s.nPredict]

section Numbers

variable {a : Ui.ModelSettings.Num}

/-- The numbers that a load carries are integers. -/
theorem OfPage.isWhole {s : Settings} (h : OfPage s) : ∀ a ∈ loadNumbers s, IsWhole a := by
  rcases h with rfl | ⟨f, rfl⟩
  · refine List.forall_mem_cons.mpr ⟨?_, List.forall_mem_cons.mpr ⟨?_, List.forall_mem_cons.mpr
      ⟨?_, List.forall_mem_singleton.mpr ?_⟩⟩⟩
    · exact_mod_cast isWhole_ofInt 4096
    · exact_mod_cast isWhole_ofInt (-1)
    · exact_mod_cast isWhole_ofInt 0
    · exact_mod_cast isWhole_ofInt 512
  · refine List.forall_mem_cons.mpr ⟨?_, List.forall_mem_cons.mpr ⟨?_, List.forall_mem_cons.mpr
      ⟨?_, List.forall_mem_singleton.mpr ?_⟩⟩⟩
    · exact isWhole_or (isWhole_parseInt _) (by exact_mod_cast isWhole_ofInt 4096)
    · exact isWhole_parseInt _
    · exact isWhole_or (isWhole_parseInt _) (by exact_mod_cast isWhole_ofInt 0)
    · exact isWhole_or (isWhole_parseInt _) (by exact_mod_cast isWhole_ofInt 512)

/-- **A number of the page in an integer field.** -/
theorem set_intField {σ : Type} (name : String) (put : ℤ → σ → σ) (x : σ) (ha : IsWhole a) (hzero : put 0 x = x) :
    (intField name put).set (Json.map numberText reread (numberValue a.toJSON)) x =
      if Fits a then some (put (goInt a) x) else none := by
  cases a with
  | nan => exact congrArg some hzero.symm
  | inf negative => exact congrArg some hzero.symm
  | fin v =>
    obtain ⟨hdouble, n, rfl⟩ := ha
    have hmag := nnabs_intCast n
    have hdouble' : IsDouble ((n.natAbs : ℚ≥0) : ℚ) := by
      rw [← hmag, Rat.coe_nnabs]
      exact isDouble_abs hdouble
    have hexp := Decimal.exp_shortest (Float64.nearest_of_isDouble hdouble')
    have hfits : Fits (.fin (n : ℚ)) ↔ ((n.natAbs : ℚ≥0)) < 2 ^ 63 := by
      rw [Fits, ← Int.cast_abs, Int.abs_eq_natAbs]
      norm_cast
    show (parseInt (numberText ⟨(n : ℚ) < 0, (n : ℚ).nnabs⟩)).map (put · x) = _
    rw [hmag, parseInt_numberText hdouble' hexp]
    by_cases h : ((n.natAbs : ℚ≥0)) < 2 ^ 63
    · rw [if_pos h, if_pos (hfits.mpr h), goInt, hmag, Option.map_some]
      by_cases hneg : (n : ℚ) < 0
      · simp only [hneg, decide_true, if_true]
      · simp only [hneg, decide_false, if_false, Bool.false_eq_true]
    · rw [if_neg h, if_neg (mt hfits.mp h)]
      rfl

/-- An integer of 53 bits is taken as it is. -/
theorem goInt_intCast {n : ℤ} (h : |n| < 2 ^ 53) : goInt (.fin n) = n := by
  have hmag := nnabs_intCast n
  have hlt : n.natAbs < 2 ^ 53 := by
    rw [Int.abs_eq_natAbs] at h
    omega
  have hexp := Decimal.exp_shortest (Float64.nearest_natCast hlt.le)
  have hwhole : wholeValue (n.natAbs : ℚ≥0) = n.natAbs := by
    have hvalue := Decimal.value_shortest hlt
    rw [value_eq_wholeValue hexp] at hvalue
    exact_mod_cast hvalue
  rw [goInt, hmag, hwhole]
  by_cases hneg : (n : ℚ) < 0
  · have hneg' : n < 0 := by exact_mod_cast hneg
    rw [if_pos hneg]
    omega
  · have hneg' : ¬n < 0 := fun h' => hneg (by exact_mod_cast h')
    rw [if_neg hneg]
    omega

end Numbers

/-! ## The request -/

section Request

variable (path mmproj : Text) {s : Settings}

/-- What the decoder makes of the body of a load. -/
def loadPost (s : Settings) : ModelPost where
  path := String.ofList path
  mmproj := String.ofList mmproj
  action := "load"
  ctxSize := goInt s.ctxSize
  nGPULayers := goInt s.nGpuLayers
  threads := goInt s.threads
  nPredict := goInt s.nPredict

theorem goText_key (k : String) : goText (reread (key k)) = k := (goText_reread k.toList).trans (String.ofList_toList)

/-- A member under a key of the page. -/
theorem setMember_key {σ : Type} {fs : List (StructField σ)} {name : String} {f : StructField σ}
    (hf : field fs name = some f) (d : Doc) (x : σ) : setMember fs x (reread (key name), d) = f.set d x :=
  setMember_of_field ((congrArg _ (goText_key name)).trans hf)

/-- A text of the page in a string field. -/
theorem set_strField {σ : Type} (name : String) (put : String → σ → σ) (t : Text) (x : σ) :
    (strField name put).set (Json.map numberText reread (textValue t)) x = some (put (String.ofList t) x) :=
  congrArg (fun t => some (put t x)) (goText_reread t)

theorem depth_load (s : Settings) : (loadObject path mmproj s).depth ≤ GoJson.maxNestingDepth := by
  refine le_trans (b := 1) (depth_object_le (List.forall_mem_append.mpr ⟨?_, List.forall_mem_map.mpr fun p _ => ?_⟩))
    (by decide)
  · exact List.forall_mem_cons.mpr ⟨le_refl 0, List.forall_mem_cons.mpr
      ⟨le_refl 0, List.forall_mem_singleton.mpr (le_refl 0)⟩⟩
  · show (numberValue p.2).depth ≤ 0
    cases p.2 <;> exact le_refl 0

/-- The members of the document, one after the other. -/
theorem decodeDoc_load (hs : OfPage s) :
    decodeDoc modelFields ⟨"", "", "", 0, 0, 0, 0⟩ (Json.map numberText reread (loadObject path mmproj s)) =
      if ∀ a ∈ loadNumbers s, Fits a then some (loadPost path mmproj s) else none := by
  obtain ⟨hctx, hrest⟩ := List.forall_mem_cons.mp hs.isWhole
  obtain ⟨hgpu, hrest⟩ := List.forall_mem_cons.mp hrest
  obtain ⟨hthreads, hpredict⟩ := List.forall_mem_cons.mp hrest
  rw [List.forall_mem_singleton] at hpredict
  rw [loadObject, object, Json.map_obj, decodeDoc, loadBody]
  simp only [List.map_cons, List.map_nil, List.cons_append, List.nil_append, Prod.map_apply, id_eq, List.foldlM_cons,
    List.foldlM_nil]
  simp only [Option.bind_eq_bind]
  rw [setMember_key rfl, set_strField, Option.bind_some, setMember_key rfl, set_strField, Option.bind_some,
    setMember_key rfl, set_strField, Option.bind_some, setMember_key rfl, set_intField _ _ _ hctx rfl]
  have guarded : ∀ (p : Prop) [Decidable p] (x : ModelPost) (k : ModelPost → Option ModelPost),
      (if p then some x else none).bind k = if p then k x else none := by
    intro p _ x k
    split <;> rfl
  have hnumbers : (∀ a ∈ loadNumbers s, Fits a) ↔
      Fits s.ctxSize ∧ Fits s.nGpuLayers ∧ Fits s.threads ∧ Fits s.nPredict := by
    rw [loadNumbers, List.forall_mem_cons, List.forall_mem_cons, List.forall_mem_cons, List.forall_mem_singleton]
  rw [guarded, setMember_key rfl, set_intField _ _ _ hgpu rfl, guarded, setMember_key rfl,
    set_intField _ _ _ hthreads rfl, guarded, setMember_key rfl, set_intField _ _ _ hpredict rfl, guarded,
    if_congr hnumbers rfl rfl, ite_and, ite_and, ite_and]
  rfl

/-- **What becomes of the body of a load**: it is decoded when its numbers fit. -/
theorem modelRequest_load (hs : OfPage s) : modelRequest (loadRequest path mmproj s) =
    .post (if ∀ a ∈ loadNumbers s, Fits a then some (loadPost path mmproj s) else none) := by
  have hdepth : ¬GoJson.maxNestingDepth < (Json.map numberText reread (loadObject path mmproj s)).depth := by
    rw [Json.depth_map]
    exact not_lt.mpr (depth_load path mmproj s)
  rw [modelRequest, decode, loadRequest, Utf8.decode_encode, readDoc_stringify, Option.bind_some, if_neg hdepth,
    decodeDoc_load path mmproj hs]

end Request

/-! ## The answer -/

section Answer

variable (convert : Value → Text)

theorem readText_jsonBody (body : List (String × String)) : readText (Utf8.decode (jsonBody body)) =
    some (object (body.map (Prod.map id fun t => textValue t.toList))) := by
  have hwritten := JsonText.readText_write Decimal.spells_numberText GoJson.spells_quote
    (object (body.map (Prod.map id fun t => textValue t.toList)))
  have htexts : (body.map (Prod.map id fun t : String => textValue t.toList)).map
        (Prod.map id (Json.map Decimal.written GoJson.goString)) =
      body.map (Prod.map id fun t => textValue t.toList) := by
    rw [List.map_map]
    exact List.map_congr_left fun p _ => Prod.ext rfl (congrArg Json.str (GoJson.goString_text p.2.toList))
  rw [map_object, htexts] at hwritten
  rw [jsonBody, Utf8.decode_encode]
  exact JsJson.readText_newline hwritten

/-- The alert looks for a message inside the error, which is a text. -/
theorem loadAlert_error (t : String) :
    loadAlert convert (jsonBody [("error", t)]) = "Failed to load model: ".toList ++ "unknown error".toList := by
  have hnone : ((readText (Utf8.decode (jsonBody [("error", t)]))).bind (property "error")).bind (property "message") =
      none := by
    rw [readText_jsonBody, Option.bind_some, List.map_singleton]
    exact congrArg (Option.bind · (property "message")) (property_error (textValue t.toList))
  unfold loadAlert
  rw [hnone]
  rfl

/-- **When a load of the page is accepted**, for all settings that the page can have: when none of its four numbers
reaches `2 ^ 63`. When one does, the alert does not say so. -/
theorem load_answered (path mmproj : Text) (s : Settings) (hs : OfPage s) :
    afterLoad convert (modelRequest (loadRequest path mmproj s)).response =
      if ∀ a ∈ loadNumbers s, Fits a then none
      else some ("Failed to load model: ".toList ++ "unknown error".toList) := by
  rw [modelRequest_load path mmproj hs]
  by_cases h : ∀ a ∈ loadNumbers s, Fits a
  · rw [if_pos h, if_pos h]
    rfl
  · rw [if_neg h, if_neg h]
    exact congrArg some (loadAlert_error convert "invalid request")

/-- The largest number of 64 bits is rounded up to `2 ^ 63`. -/
theorem load_answered_large : afterLoad (fun _ => []) (modelRequest (loadRequest "/m.gguf".toList []
    (saveModelSettings ⟨"9223372036854775807", "-1", "0", "512", "0.7", "0.9", "40", "1.1"⟩))).response =
      some ("Failed to load model: ".toList ++ "unknown error".toList) :=
  (load_answered (fun _ => []) "/m.gguf".toList []
    (saveModelSettings ⟨"9223372036854775807", "-1", "0", "512", "0.7", "0.9", "40", "1.1"⟩) (.inr ⟨_, rfl⟩)).trans
    (if_neg (by decide +kernel))

end Answer

/-! ## The command line -/

/-- The field of the dialog holds an integer of 53 bits. -/
def Holds (value : String) (n : ℤ) : Prop := Ui.ModelSettings.parseInt value = .fin n ∧ |n| < 2 ^ 53

/-- The settings of the engine after a load with these integers in the dialog: the page replaces an empty context and an
empty prediction, and the handler skips what is not positive, for the layers only 0. -/
def typedServer (path mmproj : Text) (ctx gpu threads predict : ℤ) (c : Controller) : Llmserver.Server :=
  { c.llm.srv with
    modelPath := String.ofList path
    mmprojPath := String.ofList mmproj
    ctxSize := if ctx = 0 then 4096 else if 0 < ctx then ctx else c.llm.srv.ctxSize
    nGPU := if gpu = 0 then c.llm.srv.nGPU else gpu
    nThreads := if 0 < threads then threads else c.llm.srv.nThreads
    nPredict := if predict = 0 then 512 else if 0 < predict then predict else c.llm.srv.nPredict
    rpcWorkers := c.api.rpcWorkers }

section Launch

theorem fits_intCast {n : ℤ} (h : |n| < 2 ^ 53) : Fits (.fin n) := by
  have h' : |n| < 2 ^ 63 := h.trans (by norm_num)
  show |(n : ℚ)| < 2 ^ 63
  exact_mod_cast h'

/-- A field that goes through `||`. -/
theorem Holds.or {value : String} {n : ℤ} (h : Holds value n) {d : ℕ} (hd : d < 2 ^ 53) :
    Fits ((Ui.ModelSettings.parseInt value).or (lit d)) ∧
      goInt ((Ui.ModelSettings.parseInt value).or (lit d)) = if n = 0 then (d : ℤ) else n := by
  obtain ⟨hparse, hlt⟩ := h
  have hd' : |(d : ℤ)| < 2 ^ 53 := by
    rw [Nat.abs_cast]
    exact_mod_cast hd
  rw [hparse, lit_natCast hd.le, Ui.ModelSettings.Num.or]
  by_cases hzero : n = 0
  · have htruthy : (Ui.ModelSettings.Num.fin (n : ℚ)).truthy = false := by simp [Ui.ModelSettings.Num.truthy, hzero]
    rw [htruthy, if_neg Bool.false_ne_true, if_pos hzero]
    exact ⟨by exact_mod_cast fits_intCast hd', by exact_mod_cast goInt_intCast hd'⟩
  · have htruthy : (Ui.ModelSettings.Num.fin (n : ℚ)).truthy = true := by simp [Ui.ModelSettings.Num.truthy, hzero]
    rw [htruthy, if_pos rfl, if_neg hzero]
    exact ⟨fits_intCast hlt, goInt_intCast hlt⟩

variable {path mmproj : Text} {f : Fields} {ctx gpu threads predict : ℤ} (hctx : Holds f.ctxSize ctx)
  (hgpu : Holds f.nGpuLayers gpu) (hthreads : Holds f.threads threads) (hpredict : Holds f.nPredict predict)

include hctx hgpu hthreads hpredict

/-- The request of a load with these integers in the dialog. -/
theorem modelRequest_typed : modelRequest (loadRequest path mmproj (saveModelSettings f)) =
    .post (some ⟨String.ofList path, String.ofList mmproj, "load", if ctx = 0 then 4096 else ctx, gpu, threads,
      if predict = 0 then 512 else predict⟩) := by
  obtain ⟨hctxFits, hctxInt⟩ := hctx.or (d := 4096) (by decide)
  obtain ⟨hthreadsFits, hthreadsInt⟩ := hthreads.or (d := 0) (by decide)
  obtain ⟨hpredictFits, hpredictInt⟩ := hpredict.or (d := 512) (by decide)
  have hgpuFits : Fits (Ui.ModelSettings.parseInt f.nGpuLayers) := hgpu.1 ▸ fits_intCast hgpu.2
  have hgpuInt : goInt (Ui.ModelSettings.parseInt f.nGpuLayers) = gpu := hgpu.1 ▸ goInt_intCast hgpu.2
  have hzero : (if threads = 0 then ((0 : ℕ) : ℤ) else threads) = threads := by
    split
    · rename_i h
      exact h.symm
    · rfl
  rw [hzero] at hthreadsInt
  have hfits : ∀ a ∈ loadNumbers (saveModelSettings f), Fits a :=
    List.forall_mem_cons.mpr ⟨hctxFits, List.forall_mem_cons.mpr ⟨hgpuFits, List.forall_mem_cons.mpr
      ⟨hthreadsFits, List.forall_mem_singleton.mpr hpredictFits⟩⟩⟩
  rw [modelRequest_load path mmproj (.inr ⟨f, rfl⟩), if_pos hfits]
  refine congrArg (fun req => ModelRequest.post (some req)) ?_
  simp only [loadPost, ModelPost.mk.injEq, true_and]
  exact ⟨hctxInt, hgpuInt, hthreadsInt, hpredictInt⟩

end Launch

/-- The goroutine of a load with a path launches a child when there is a binary. -/
theorem canLaunch_load (o : Outside) (env : Env) (req : ModelPost) (c : Controller) (hpath : req.path ≠ "")
    (hbinary : Llmserver.findLLamaServer env ≠ "") :
    CanLaunch env (copyWorkers ((ModelRequest.post (some req)).handle o c)).llm := by
  have hmodelPath : ((ModelRequest.post (some req)).handle o c).llm.srv.modelPath = req.path :=
    congrFun (Api.values_post o req c) .modelPath
  exact ⟨hmodelPath.trans_ne hpath, hbinary⟩

/-- The settings that the request of such a load leaves. -/
theorem loadServer_typed (path mmproj : Text) (ctx gpu threads predict : ℤ) (c : Controller) :
    loadServer ⟨String.ofList path, String.ofList mmproj, "load", if ctx = 0 then 4096 else ctx, gpu, threads,
      if predict = 0 then 512 else predict⟩ c = typedServer path mmproj ctx gpu threads predict c := by
  have hor : ∀ n d old : ℤ, 0 < d → (if 0 < (if n = 0 then d else n) then (if n = 0 then d else n) else old) =
      if n = 0 then d else if 0 < n then n else old := by
    intro n d old hd
    by_cases hzero : n = 0
    · simp only [if_pos hzero, if_pos hd]
    · simp only [if_neg hzero]
  have hgpu : (if gpu ≠ 0 then gpu else c.llm.srv.nGPU) = if gpu = 0 then c.llm.srv.nGPU else gpu := ite_not ..
  unfold loadServer typedServer
  rw [hor ctx 4096 _ (by decide), hor predict 512 _ (by decide), hgpu]

/-- **What is typed is what the engine is told**: for every path that is not empty, for every dialog whose four fields
hold integers of 53 bits, and in every state of the controller, the child that the load launches has these settings in
its arguments. A llama-server binary must be found, and nothing else may run between the handler, the copy of the
workers and `Start`: another request would change what the arguments say. -/
theorem load_launches (o : Outside) (env : Env) (c : Controller) (path mmproj : Text) (f : Fields)
    (ctx gpu threads predict : ℤ) (hctx : Holds f.ctxSize ctx) (hgpu : Holds f.nGpuLayers gpu)
    (hthreads : Holds f.threads threads) (hpredict : Holds f.nPredict predict) (hpath : path ≠ [])
    (hbinary : Llmserver.findLLamaServer env ≠ "") :
    ∃ child, (Llmserver.start env (copyWorkers
          ((modelRequest (loadRequest path mmproj (saveModelSettings f))).handle o c)).llm).1.children.getLast? =
        some child ∧
      readArgs child.args = some (typedServer path mmproj ctx gpu threads predict c).options.args := by
  rw [modelRequest_typed hctx hgpu hthreads hpredict, ← loadServer_typed]
  generalize hreq : (⟨String.ofList path, String.ofList mmproj, "load", if ctx = 0 then 4096 else ctx, gpu, threads,
    if predict = 0 then 512 else predict⟩ : ModelPost) = req
  have hpath' : req.path ≠ "" := by
    rw [← hreq]
    exact fun h => hpath (by simpa using congrArg String.toList h)
  obtain ⟨child, hlast, hargs⟩ := Api.loadArgv_launched o req c env (canLaunch_load o env req c hpath' hbinary)
  refine ⟨child, hlast, ?_⟩
  rw [hargs, Api.loadArgv_eq, Llmserver.buildArgs_eq, Llmserver.readArgs_render (Options.args_arity _)]

/-- A context of 8192, all layers, automatic threads and the default prediction. -/
def typedFields : Fields := ⟨"8192", "99", "0", "512", "0.7", "0.9", "40", "1.1"⟩

theorem load_launches_typed :
    ∃ child, (Llmserver.start Llmserver.envUp (copyWorkers
          ((modelRequest (loadRequest "/m.gguf".toList [] (saveModelSettings typedFields))).handle Api.outsideUp
            Api.idleController)).llm).1.children.getLast? =
        some child ∧
      readArgs child.args = some (typedServer "/m.gguf".toList [] 8192 99 0 512 Api.idleController).options.args :=
  load_launches Api.outsideUp Llmserver.envUp Api.idleController "/m.gguf".toList [] typedFields 8192 99 0 512
    ⟨by decide +kernel, by norm_num⟩ ⟨by decide +kernel, by norm_num⟩ ⟨by decide +kernel, by norm_num⟩
    ⟨by decide +kernel, by norm_num⟩ (by decide) (by decide)

end LaManchaland.Wire
