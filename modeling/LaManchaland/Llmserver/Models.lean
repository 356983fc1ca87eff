import LaManchaland.Lib.Cut

/-!
# The list of models

`getModels` is `GetModels` of `server.go`: one entry, whose id is the file name of the model path without its
extension. The source cuts three times, after the last `/`, after the last `\` of what is left, and before the last `.`
of what is left then. `Split path dir id ext` says what the id is for: `dir` is the longest prefix that is empty or ends
with a separator of either kind, and `ext` the extension of the last component. Every path has exactly one split, and
its id is the one of the entry (`model_id`).
-/

namespace LaManchaland.Llmserver

open Cut (afterLast beforeLast IsCut)

/-- An entry of the list, with the path of its `meta`. -/
structure ModelEntry where
  id : String
  object : String
  created : Int
  ownedBy : String
  path : String
  deriving DecidableEq

/-- The cuts of `GetModels`, on a path that is not empty. -/
def cutName (modelPath : List Char) : List Char :=
  let base := modelPath
  let base := afterLast '/' base
  let base := afterLast '\\' base
  beforeLast '.' base

/-- `GetModels`, at a time. -/
def getModels (now : Int) (modelPath : String) : List ModelEntry :=
  let modelName := if modelPath ≠ "" then String.ofList (cutName modelPath.toList) else "model"
  [{ id := modelName, object := "model", created := now, ownedBy := "la-manchaland", path := modelPath }]

/-! ## What the id is for -/

/-- The separators of directories. -/
def isSep (c : Char) : Bool := c = '/' || c = '\\'

/-- The parts of a path: the directory, the id and the extension of the last component. -/
structure Split (path dir id ext : List Char) : Prop where
  cut : IsCut isSep path dir (id ++ ext)
  ext_dot : (ext = [] ∧ '.' ∉ id) ∨ ∃ e, ext = '.' :: e ∧ '.' ∉ e

/-- The two cuts at separators are one cut after the last separator of either kind. -/
theorem afterLast_afterLast (path : List Char) :
    afterLast '\\' (afterLast '/' path) = path.rtakeWhile fun c => !isSep c := by
  rw [Cut.afterLast_eq_rtakeWhile, Cut.afterLast_eq_rtakeWhile, Cut.rtakeWhile_rtakeWhile]
  congr 1
  funext c
  by_cases hs : c = '/' <;> by_cases hb : c = '\\' <;> simp [isSep, hs, hb]

/-- The last component is the id and the extension. -/
theorem beforeLast_split (base : List Char) :
    ∃ ext, base = beforeLast '.' base ++ ext ∧
      ((ext = [] ∧ '.' ∉ beforeLast '.' base) ∨ ∃ e, ext = '.' :: e ∧ '.' ∉ e) := by
  by_cases hdot : '.' ∈ base
  · obtain ⟨a, b, rfl, hb⟩ := Cut.exists_last hdot
    rw [Cut.beforeLast_append_cons hb]
    exact ⟨'.' :: b, rfl, .inr ⟨b, rfl, hb⟩⟩
  · rw [Cut.beforeLast_of_not_mem hdot]
    exact ⟨[], (List.append_nil base).symm, .inl ⟨rfl, hdot⟩⟩

/-- The cuts of the source give a split. -/
theorem exists_split (path : List Char) : ∃ dir ext, Split path dir (cutName path) ext := by
  obtain ⟨ext, hbase, hext⟩ := beforeLast_split (afterLast '\\' (afterLast '/' path))
  refine ⟨path.rdropWhile (fun c => !isSep c), ext, ?_, hext⟩
  have hcut := Cut.isCut_rdropWhile isSep path
  rwa [← afterLast_afterLast, hbase] at hcut

/-- A component is an id and an extension in one way. -/
theorem ext_unique {id ext id' ext' : List Char} (h : id ++ ext = id' ++ ext')
    (he : (ext = [] ∧ '.' ∉ id) ∨ ∃ e, ext = '.' :: e ∧ '.' ∉ e)
    (he' : (ext' = [] ∧ '.' ∉ id') ∨ ∃ e, ext' = '.' :: e ∧ '.' ∉ e) : id = id' ∧ ext = ext' := by
  have hid : ∀ {id ext : List Char}, ((ext = [] ∧ '.' ∉ id) ∨ ∃ e, ext = '.' :: e ∧ '.' ∉ e) →
      beforeLast '.' (id ++ ext) = id := by
    rintro id ext (⟨rfl, hd⟩ | ⟨e, rfl, hd⟩)
    · rw [List.append_nil, Cut.beforeLast_of_not_mem hd]
    · exact Cut.beforeLast_append_cons hd
  obtain rfl : id = id' := by rw [← hid he, h, hid he']
  exact ⟨rfl, List.append_cancel_left h⟩

/-- A path has at most one split. -/
theorem Split.unique {path dir id ext dir' id' ext' : List Char} (h : Split path dir id ext)
    (h' : Split path dir' id' ext') : dir = dir' ∧ id = id' ∧ ext = ext' := by
  obtain ⟨hdir, hbase⟩ := h.cut.unique h'.cut
  exact ⟨hdir, ext_unique hbase h.ext_dot h'.ext_dot⟩

/-- No id has a separator, that of an empty path included. -/
theorem not_sep_id {now : Int} {modelPath : String} {m : ModelEntry} (hm : m ∈ getModels now modelPath) :
    ∀ c ∈ m.id.toList, isSep c = false := by
  rw [getModels, List.mem_singleton] at hm
  rw [hm]
  by_cases h : modelPath ≠ ""
  · obtain ⟨dir, ext, hsplit⟩ := exists_split modelPath.toList
    rw [if_pos h, String.toList_ofList]
    exact fun c hc => hsplit.cut.not_sep c (List.mem_append_left _ hc)
  · rw [if_neg h]
    exact fun c hc => by simpa using List.all_eq_true.mp (show "model".toList.all (!isSep ·) = true by decide) c hc

/-- **The id of a model** is that of the only split of its path, and it has no separator. -/
theorem model_id (now : Int) (modelPath : String) (h : modelPath ≠ "") :
    ∃ id : String, (getModels now modelPath).map ModelEntry.id = [id] ∧ '/' ∉ id.toList ∧ '\\' ∉ id.toList ∧
      ∃ dir ext, Split modelPath.toList dir id.toList ext ∧
        ∀ dir' id' ext', Split modelPath.toList dir' id' ext' → dir' = dir ∧ id' = id.toList ∧ ext' = ext := by
  obtain ⟨dir, ext, hsplit⟩ := exists_split modelPath.toList
  have hmodels : getModels now modelPath =
      [⟨String.ofList (cutName modelPath.toList), "model", now, "la-manchaland", modelPath⟩] := by
    rw [getModels, if_pos h]
  have hclean := not_sep_id (hmodels ▸ List.mem_singleton_self _)
  refine ⟨String.ofList (cutName modelPath.toList), ?_, fun hc => ?_, fun hc => ?_, dir, ext, ?_, ?_⟩
  · rw [hmodels, List.map_singleton]
  · exact absurd (hclean _ hc) (by decide)
  · exact absurd (hclean _ hc) (by decide)
  · rwa [String.toList_ofList]
  · rw [String.toList_ofList]
    exact fun dir' id' ext' h' => h'.unique hsplit

/-- A file in a directory with dots, reached through both separators. -/
theorem model_id_mixed :
    ∃ id : String, (getModels 0 "a.b/c.d\\llama-3.gguf").map ModelEntry.id = [id] ∧ '/' ∉ id.toList ∧
      '\\' ∉ id.toList ∧
      ∃ dir ext, Split "a.b/c.d\\llama-3.gguf".toList dir id.toList ext ∧
        ∀ dir' id' ext', Split "a.b/c.d\\llama-3.gguf".toList dir' id' ext' →
          dir' = dir ∧ id' = id.toList ∧ ext' = ext :=
  model_id 0 "a.b/c.d\\llama-3.gguf" (by decide)

end LaManchaland.Llmserver
