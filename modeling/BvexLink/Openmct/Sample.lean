import BvexLink.Ground.StoreFileSample

/-!
# BvexLink.Openmct.Sample

`sample.ts`: the telemetry point of a sample as it is received, and for a sample of a file where its
url leads below the directory that `/files` serves. What a browser and the server make of a url, and
what the file system allows, are parameters.

* `sampleToTelemetryPoint_file`: the url of a file.
* `PlainUrl`: the urls whose characters stand for themselves.
* `url_names_file_iff`: when it leads to the file that was stored.
-/

namespace BvexLink
namespace Openmct

open Codec Wire Json Ground

/-- The numbers of the script, told apart as `===` does (and `NaN` one of them): what a JSON token
is read as, what `null` counts for, a product, and the text in a template. -/
structure Numbers (N : Type) where
  finite : N → Bool
  ofToken : List Char → N
  zero : N
  times1000 : N → N
  text : N → String

/-- `interface Sample`; `timestamp` is what it counts for in arithmetic. -/
structure SampleInterface (N : Type) where
  timestamp : N
  metric_id : String
  which_data_type : String
  data : Json

inductive TelemetryPoint (N : Type) where
  | primitive (timestamp : N) (value : Option Json) (id : String)
  | image (timestamp : N) (url : String) (id : String)

variable {N : Type} (n : Numbers N)

inductive Thrown where
  | typeError
  | error (message : String)

def member (k : String) : Json → Option Json
  | .obj ms => field ms k
  | _ => none

/-- `j.k`, where `none` is `undefined`. -/
def property (k : String) : Json → Except Thrown (Option Json)
  | .null => .error .typeError
  | j => .ok (member k j)

def stringValue : Json → Option String
  | .str s => some s
  | _ => none

def Numbers.ofJson : Json → Option N
  | .int z => some (n.ofToken (printInt z))
  | .float l => some (n.ofToken l.text)
  | .null => some n.zero
  | _ => none

/-- The message received, if it has the fields of the interface. -/
def SampleInterface.parse (text : String) : Option (SampleInterface N) := do
  let j ← jsonParse text
  let metadata ← member "metadata" j
  let timestamp ← (member "timestamp" metadata).bind n.ofJson
  let metric_id ← (member "metric_id" metadata).bind stringValue
  let which_data_type ← (member "which_data_type" metadata).bind stringValue
  let data ← member "data" j
  return ⟨timestamp, metric_id, which_data_type, data⟩

def sampleToTelemetryPoint (sample : SampleInterface N) : Except Thrown (TelemetryPoint N) :=
  let timestamp := n.times1000 sample.timestamp
  if sample.which_data_type = "primitive" then
    (property "value" sample.data).map fun value => .primitive timestamp value sample.metric_id
  else if sample.which_data_type = "file" then
    (property "filename" sample.data).bind fun
      | some (.str filename) =>
        .ok (.image timestamp (String.ofList (fileName (n.text timestamp) filename))
          sample.metric_id)
      -- there is no `split`
      | _ => .error .typeError
  else .error (.error ("Unexpected sample data type: " ++ sample.which_data_type))

section Sample

variable {F : Type} [Primitives F]

def Numbers.received : F ⊕ Int → N
  | .inl x => if Primitives.isFinite x then n.ofToken (Primitives.lit x).text else n.zero
  | .inr z => n.ofToken (printInt z)

theorem Numbers.ofJson_timestamp (t : F ⊕ Int) : n.ofJson (timestampJson t) = some (n.received t) := by
  cases t with
  | inl x =>
    simp only [timestampJson, floatJson, received]
    split <;> rfl
  | inr z => rfl

def milliseconds (sample : Sample F) : N := n.times1000 (n.received sample.metadata.timestamp)

theorem standard_floatJson (x : F) : standard (floatJson x) = true := by
  rw [floatJson]
  split <;> rfl

theorem standard_timestampJson (t : F ⊕ Int) : standard (timestampJson t) = true := by
  cases t with
  | inl x => exact standard_floatJson x
  | inr z => rfl

theorem standard_toJson (v : PrimitiveType F) : standard v.toJson = true := by
  cases v with
  | float x => exact standard_floatJson x
  | _ => rfl

theorem standard_members (sample : Sample F) : standard (.obj sample.members) = true := by
  have ht := standard_timestampJson sample.metadata.timestamp
  simp only [standard] at ht
  simp only [standard, Sample.members, SampleMetadata.members, leaves, leavesMembers,
    List.all_append, ht]
  cases sample.data with
  | primitive p =>
    have hv := standard_toJson p.value
    simp only [standard] at hv
    simp [SampleData.members, PrimitiveData.members, leaves, leavesMembers, hv]
  | file f => rfl

theorem parse_modelDumpJson (sample : Sample F) :
    SampleInterface.parse n sample.modelDumpJson =
      some ⟨n.received sample.metadata.timestamp, sample.metadata.metric_id,
        sample.metadata.which_data_type.value, .obj sample.data.members⟩ := by
  have ht : (member "timestamp" (.obj sample.metadata.members)).bind n.ofJson =
      some (n.received sample.metadata.timestamp) := n.ofJson_timestamp sample.metadata.timestamp
  rw [SampleInterface.parse, Sample.modelDumpJson, jsonParse_print (standard_members sample)]
  show ((member "timestamp" (.obj sample.metadata.members)).bind n.ofJson).bind _ = _
  rw [ht]
  rfl

theorem sampleToTelemetryPoint_file {sample : Sample F} {f : FileData} (hf : sample.data = .file f) :
    (SampleInterface.parse n sample.modelDumpJson).map (sampleToTelemetryPoint n) =
      some (.ok (.image (milliseconds n sample)
        (String.ofList (fileName (n.text (milliseconds n sample)) f.filename))
        sample.metadata.metric_id)) := by
  have hw : sample.metadata.which_data_type = .file := by
    rw [← sample.ok, hf]
    rfl
  rw [parse_modelDumpJson, hw, hf]
  rfl

/-- The system lets `store_file_sample` make the directory and write the file, and the url of the
sample is requested as a path below the directory that `/files` serves and leads to this file. -/
def UrlNamesFile (cwd : List Path.Piece) (lets : List Char → List Char → Prop)
    (requested : List Char → Option (List Char)) (fileStoreDir : List Char) (sample : Sample F) :
    Prop :=
  ∃ file timestamp url id path, storeFileSample fileStoreDir sample = .ok file ∧
    lets file.metric_dir file.sample_file ∧
    (SampleInterface.parse n sample.modelDumpJson).map (sampleToTelemetryPoint n) =
      some (.ok (.image timestamp url id)) ∧
    requested url.toList = some path ∧
    Path.walk (Path.resolve cwd fileStoreDir) path = Path.resolve cwd file.sample_file

/-- What the numbers of the two languages and their texts have to do with each other. -/
structure NumbersAgree (F : Type) [Primitives F] (n : Numbers N) : Prop where
  /-- `str` of a `float` and its JSON token are one number. -/
  strOfFloat : ∀ x : F, Primitives.isFinite x = true →
    n.ofToken (Primitives.strOfFloat x).toList = n.ofToken (Primitives.lit x).text
  strOfFloat_ne : ∀ x : F,
    Primitives.strOfFloat x ∉ ["0", "Infinity", "-Infinity", "NaN"]
  strOfFloat_name : ∀ x : F, IsName (Primitives.strOfFloat x).toList
  /-- A number is the one its text denotes. -/
  ofToken_text : ∀ y, n.finite y = true → n.ofToken (n.text y).toList = y
  text_infinite : ∀ y, n.finite y = false → n.text y ∈ ["Infinity", "-Infinity", "NaN"]
  text_chars : ∀ y, n.finite y = true → ∀ c ∈ (n.text y).toList, numChar c = true
  text_name : ∀ y, IsName (n.text y).toList
  text_zero : n.text n.zero = "0"
  ofToken_int : ∀ z, n.ofToken (printInt z) = n.zero ↔ z = 0
  times1000_zero : n.times1000 n.zero = n.zero
  times1000_eq : ∀ y, n.finite y = true → n.times1000 y = y → y = n.zero

/-! ## When they agree -/

theorem printInt_notMem (z : Int) {text : String} (h : text.toList = printInt z) :
    text ∉ ["Infinity", "-Infinity", "NaN"] := by
  have hn : ∀ c ∈ text.toList, numChar c = true := h ▸ printInt_numChar z
  intro hm
  simp only [List.mem_cons, List.not_mem_nil, or_false] at hm
  rcases hm with rfl | rfl | rfl
  · exact absurd (hn 'I' (by decide)) (by decide)
  · exact absurd (hn 'I' (by decide)) (by decide)
  · exact absurd (hn 'N' (by decide)) (by decide)

variable {n}

theorem isName_timestampText (h : NumbersAgree F n) {t : F ⊕ Int} {text : String}
    (ht : timestampText t = .ok text) : IsName text.toList := by
  cases t with
  | inl x =>
    cases ht
    exact h.strOfFloat_name x
  | inr z =>
    rw [strOfInt_eq_ok ht]
    exact isName_printInt z

theorem received_eq_zero (h : NumbersAgree F n) {y : N} (text : String)
    (htoken : n.ofToken text.toList = y) (hword : text ∉ ["Infinity", "-Infinity", "NaN"])
    (he : n.text (n.times1000 y) = text) : y = n.zero := by
  have hfin : n.finite (n.times1000 y) = true := by
    by_contra hf
    refine hword ?_
    rw [← he]
    exact h.text_infinite _ (Bool.not_eq_true _ ▸ hf)
  have hy : n.times1000 y = y := by
    rw [← h.ofToken_text _ hfin, he, htoken]
  exact h.times1000_eq y (hy ▸ hfin) hy

theorem texts_agree_iff (h : NumbersAgree F n) (t : F ⊕ Int) :
    timestampText t = .ok (n.text (n.times1000 (n.received t))) ↔ t = .inr 0 := by
  constructor
  · intro ht
    cases t with
    | inl x =>
      have hs : Primitives.strOfFloat x = n.text (n.times1000 (n.received (.inl x))) :=
        Except.ok.inj ht
      have hz : n.received (.inl x) = n.zero := by
        by_cases hx : Primitives.isFinite x = true
        · have hr : n.received (.inl x) = n.ofToken (Primitives.lit x).text := if_pos hx
          refine received_eq_zero h (Primitives.strOfFloat x) ?_ ?_ hs.symm
          · rw [hr, h.strOfFloat x hx]
          · intro hm
            exact h.strOfFloat_ne x (List.mem_cons_of_mem _ hm)
        · exact if_neg hx
      rw [hz, h.times1000_zero, h.text_zero] at hs
      exact absurd (hs ▸ List.mem_cons_self ..) (h.strOfFloat_ne x)
    | inr z =>
      have hd := strOfInt_eq_ok ht
      have hz := received_eq_zero h _ (congrArg n.ofToken hd) (printInt_notMem z hd) rfl
      rw [(h.ofToken_int z).mp hz]
  · rintro rfl
    have hz : n.received (.inr 0 : F ⊕ Int) = n.zero := (h.ofToken_int 0).mpr rfl
    rw [hz, h.times1000_zero, h.text_zero]
    exact strOfInt_zero

/-! ## Urls -/

/-- Characters that end the path of a url, separate its pieces or are taken out. -/
def special (c : Char) : Bool := ['?', '#', '\\', '\t', '\n', '\r'].contains c

def isHex (c : Char) : Bool := c.isDigit || ('a' ≤ c && c ≤ 'f') || ('A' ≤ c && c ≤ 'F')

def startsEscape : List Char → Bool
  | '%' :: a :: b :: _ => isHex a && isHex b
  | _ => false

/-- Each character stands for itself. -/
def verbatim : List Char → Bool
  | [] => true
  | c :: cs => !special c && !startsEscape (c :: cs) && verbatim cs

def schemeChar (c : Char) : Bool := c.isAlphanum || c == '+' || c == '-' || c == '.'

def hasScheme : List Char → Bool
  | [] => false
  | c :: cs => c.isAlpha && (cs.dropWhile schemeChar).head? == some ':'

/-- A relative url that spells the path it is requested as. -/
structure PlainUrl (url : List Char) : Prop where
  verbatim : verbatim url = true
  scheme : hasScheme url = false
  relative : url.head? ≠ some '/'
  /-- White space at the ends is taken away. -/
  first : ∀ c, url.head? = some c → 32 < c.toNat
  last : ∀ c, url.getLast? = some c → 32 < c.toNat
  pieces : ∀ piece ∈ url.splitOn '/', Path.Plain piece

/-- What the browser asks for and the server takes out of the request, for a url below `/files`. -/
structure UrlsRead (requested : List Char → Option (List Char)) : Prop where
  plain : ∀ url, PlainUrl url → requested url = some url
  /-- No scheme with a dot is one that is read relative to the page. -/
  scheme : ∀ url, hasScheme url = true → '.' ∈ url.takeWhile schemeChar → requested url = none

structure PlainExtension (ext : List Char) : Prop where
  verbatim : verbatim ext = true
  last : ∀ c, ext.getLast? = some c → 32 < c.toNat

def ordinary (c : Char) : Bool := !special c && c != '%' && c != '/' && decide (32 < c.toNat)

theorem text_all (h : NumbersAgree F n) {p : Char → Bool} (hnum : ∀ c, numChar c = true → p c = true)
    (hword : ∀ w ∈ ["Infinity", "-Infinity", "NaN"], w.toList.all p = true) (y : N) :
    ∀ c ∈ (n.text y).toList, p c = true := by
  intro c hc
  by_cases hy : n.finite y = true
  · exact hnum c (h.text_chars y hy c hc)
  · have hw := h.text_infinite y (Bool.not_eq_true _ ▸ hy)
    exact List.all_eq_true.mp (hword _ hw) c hc

theorem ordinary_of_numChar {c : Char} (h : numChar c = true) : ordinary c = true := by
  have hlow : 43 ≤ c.toNat := by
    simp only [numChar, Bool.or_eq_true, beq_iff_eq] at h
    rcases h with ((((h | rfl) | rfl) | rfl) | rfl) | rfl
    · exact Nat.le_trans (by decide) (Char.isDigit_iff_toNat.mp h).1
    all_goals decide
  have hne : ∀ c', numChar c' = false → c ≠ c' := by
    rintro c' hc' rfl
    rw [h] at hc'
    cases hc'
  simp only [ordinary, special, Bool.and_eq_true, Bool.not_eq_true', bne_iff_ne, decide_eq_true_eq]
  refine ⟨⟨⟨?_, hne '%' (by decide)⟩, hne '/' (by decide)⟩, by omega⟩
  rw [List.contains_eq_mem, decide_eq_false_iff_not]
  intro hm
  have hspecial : ['?', '#', '\\', '\t', '\n', '\r'].all (fun c' => !numChar c') = true := rfl
  have hc := List.all_eq_true.mp hspecial c hm
  rw [h] at hc
  cases hc

theorem schemeChar_of_numChar {c : Char} (h : numChar c = true) : schemeChar c = true := by
  simp only [numChar, Bool.or_eq_true, beq_iff_eq] at h
  rcases h with ((((h | rfl) | rfl) | rfl) | rfl) | rfl
  · simp [schemeChar, Char.isAlphanum, h]
  all_goals decide

theorem ordinary_text (h : NumbersAgree F n) (y : N) : ∀ c ∈ (n.text y).toList, ordinary c = true :=
  text_all h (fun _ => ordinary_of_numChar) (by decide) y

theorem schemeChar_text (h : NumbersAgree F n) (y : N) :
    ∀ c ∈ (n.text y).toList, schemeChar c = true :=
  text_all h (fun _ => schemeChar_of_numChar) (by decide) y

/-- The dot before the extension is one of a scheme. -/
theorem dot_mem_scheme (h : NumbersAgree F n) (y : N) (filename : String) :
    '.' ∈ (fileName (n.text y) filename).takeWhile schemeChar := by
  rw [fileName, List.takeWhile_append_of_pos (schemeChar_text h y),
    List.takeWhile_cons_of_pos (by decide)]
  exact List.mem_append_right _ (List.mem_cons_self ..)

theorem verbatim_append {a : List Char} (h : ∀ c ∈ a, ordinary c = true) (b : List Char) :
    verbatim (a ++ b) = verbatim b := by
  induction a with
  | nil => rfl
  | cons c a ih =>
    have hc := h c (List.mem_cons_self ..)
    simp only [ordinary, Bool.and_eq_true, Bool.not_eq_true', bne_iff_ne] at hc
    have hescape : startsEscape (c :: (a ++ b)) = false := by
      rw [startsEscape]
      rintro a b r he
      exact hc.1.1.2 (List.cons.inj he).1
    rw [List.cons_append, verbatim, hescape, hc.1.1.1,
      ih fun c' hc' => h c' (List.mem_cons_of_mem _ hc')]
    rfl

theorem plainUrl_fileName (h : NumbersAgree F n) (y : N) {filename : String}
    (hext : PlainExtension (extension filename))
    (hscheme : hasScheme (fileName (n.text y) filename) = false) :
    PlainUrl (fileName (n.text y) filename) where
  verbatim := by
    rw [fileName, verbatim_append (ordinary_text h y), verbatim, hext.verbatim]
    rfl
  scheme := hscheme
  relative := head_fileName (h.text_name y) filename
  first := by
    intro c hc
    have hname := (h.text_name y).nonempty
    have hchars := ordinary_text h y
    cases ht : (n.text y).toList with
    | nil => exact absurd ht hname
    | cons c' cs =>
      rw [fileName, ht, List.cons_append, List.head?_cons, Option.some.injEq] at hc
      have hc' := hchars c' (ht ▸ List.mem_cons_self ..)
      simp only [ordinary, Bool.and_eq_true, decide_eq_true_eq] at hc'
      exact hc ▸ hc'.2
  last := by
    intro c hc
    rw [fileName, List.getLast?_append_cons] at hc
    cases he : extension filename with
    | nil =>
      rw [he] at hc
      cases hc
      decide
    | cons c' cs =>
      rw [he, List.getLast?_cons_cons, ← he] at hc
      exact hext.last c hc
  pieces := plain_fileName (h.text_name y) filename

theorem hasScheme_zero (filename : String) : hasScheme (fileName "0" filename) = false := rfl

/-! ## When the url leads to the file -/

/-- The condition on a sample of a file. -/
structure FoundAtZero (cwd : List Path.Piece) (lets : List Char → List Char → Prop)
    (fileStoreDir : List Char) (metadata : SampleMetadata F) (filename : String) : Prop where
  extension : PlainExtension (extension filename)
  lets : lets (metricDir fileStoreDir metadata.metric_id)
    (Path.join (metricDir fileStoreDir metadata.metric_id) (fileName "0" filename))
  back : Path.walk (Path.resolve cwd fileStoreDir) ("metric-".toList ++ metadata.metric_id.toList) =
    Path.resolve cwd fileStoreDir
  zero : metadata.timestamp = .inr 0

section

variable (h : NumbersAgree F n) (cwd : List Path.Piece) (lets : List Char → List Char → Prop)
  {requested : List Char → Option (List Char)} (hr : UrlsRead requested) (fileStoreDir : List Char)
  {sample : Sample F} {f : FileData} (hf : sample.data = .file f)

include h

theorem walk_eq_sample_file_iff {text : String} (ht : IsName text.toList) :
    Path.walk (Path.resolve cwd fileStoreDir) (fileName (n.text (milliseconds n sample)) f.filename) =
        Path.resolve cwd (Path.join (metricDir fileStoreDir sample.metadata.metric_id)
          (fileName text f.filename)) ↔
      Path.walk (Path.resolve cwd fileStoreDir)
          ("metric-".toList ++ sample.metadata.metric_id.toList) =
        Path.resolve cwd fileStoreDir ∧ n.text (milliseconds n sample) = text := by
  have hhead : ("metric-".toList ++ sample.metadata.metric_id.toList).head? ≠ some '/' := by simp
  rw [Path.resolve_join cwd _ (head_fileName ht f.filename),
    walk_fileName_eq_iff (h.text_name _) ht, metricDir, Path.resolve_join cwd _ hhead]
  exact and_congr_left fun _ => eq_comm

include hr hf

/-- The condition is enough. -/
theorem urlNamesFile_of_foundAtZero
    (hc : FoundAtZero cwd lets fileStoreDir sample.metadata f.filename) :
    UrlNamesFile n cwd lets requested fileStoreDir sample := by
  have htext := (texts_agree_iff h sample.metadata.timestamp).mpr hc.zero
  have hzero : n.text (milliseconds n sample) = "0" := by
    have hz : timestampText sample.metadata.timestamp = .ok "0" := hc.zero ▸ strOfInt_zero
    rw [hz] at htext
    exact (Except.ok.inj htext).symm
  have hplain := plainUrl_fileName h (milliseconds n sample) hc.extension
    (hzero ▸ hasScheme_zero f.filename)
  have hlets : lets (metricDir fileStoreDir sample.metadata.metric_id)
      (Path.join (metricDir fileStoreDir sample.metadata.metric_id)
        (fileName (n.text (milliseconds n sample)) f.filename)) := hzero ▸ hc.lets
  refine ⟨_, _, _, _, fileName (n.text (milliseconds n sample)) f.filename,
    (storeFileSample_eq_ok hf).mpr ⟨_, htext, rfl⟩, hlets, sampleToTelemetryPoint_file n hf, ?_, ?_⟩
  · rw [String.toList_ofList]
    exact hr.plain _ hplain
  · exact (walk_eq_sample_file_iff h cwd fileStoreDir (h.text_name _)).mpr ⟨hc.back, rfl⟩

/-- It is needed, where the extension stands for itself. -/
theorem foundAtZero_of_urlNamesFile (hext : PlainExtension (extension f.filename))
    (hu : UrlNamesFile n cwd lets requested fileStoreDir sample) :
    FoundAtZero cwd lets fileStoreDir sample.metadata f.filename := by
  obtain ⟨file, timestamp, url, id, path, hs, hlets, hp, hreq, hplace⟩ := hu
  obtain ⟨text, ht, rfl⟩ := (storeFileSample_eq_ok hf).mp hs
  rw [sampleToTelemetryPoint_file n hf] at hp
  cases hp
  rw [String.toList_ofList] at hreq
  cases hscheme : hasScheme (fileName (n.text (milliseconds n sample)) f.filename) with
  | true =>
    rw [hr.scheme _ hscheme (dot_mem_scheme h _ f.filename)] at hreq
    cases hreq
  | false =>
    rw [hr.plain _ (plainUrl_fileName h _ hext hscheme)] at hreq
    cases hreq
    obtain ⟨hback, rfl⟩ := (walk_eq_sample_file_iff h cwd fileStoreDir
      (isName_timestampText h ht)).mp hplace
    have hzero := (texts_agree_iff h sample.metadata.timestamp).mp ht
    rw [hzero] at ht
    have htext : "0" = n.text (milliseconds n sample) := Except.ok.inj (strOfInt_zero.symm.trans ht)
    rw [← htext] at hlets
    exact ⟨hext, hlets, hback, hzero⟩

end

/-- The url of a file sample leads to the file that is stored if the extension stands for itself in
a url, the system lets the file be written, the path `metric-` and the metric id leads from the
store back to it and the timestamp is the integer `0`. For an extension that stands for itself it
does so only then. -/
theorem url_names_file_iff (h : NumbersAgree F n) (cwd : List Path.Piece)
    (lets : List Char → List Char → Prop) {requested : List Char → Option (List Char)}
    (hr : UrlsRead requested) (fileStoreDir : List Char) {sample : Sample F} {f : FileData}
    (hf : sample.data = .file f) :
    (FoundAtZero cwd lets fileStoreDir sample.metadata f.filename →
      UrlNamesFile n cwd lets requested fileStoreDir sample) ∧
    (PlainExtension (extension f.filename) →
      UrlNamesFile n cwd lets requested fileStoreDir sample →
      FoundAtZero cwd lets fileStoreDir sample.metadata f.filename) :=
  ⟨urlNamesFile_of_foundAtZero h cwd lets hr fileStoreDir hf,
    foundAtZero_of_urlNamesFile h cwd lets hr fileStoreDir hf⟩

end Sample

/-! ## An instance -/

@[reducible] def zeroFloat : Primitives Unit where
  isFinite _ := true
  lit _ := ⟨"0.0".toList, isFloatToken_zero⟩
  ofLit _ := ()
  ofConstant _ := ()
  intOfFloat _ := .ok 0
  floatOfInt z := if z = 0 then .ok () else .error "int too large to convert to float"
  floatOfStr _ := .error "could not convert string to float"
  strOfFloat _ := "0.0"
  isTrue _ := false
  decimal _ := none
  invalidLiteral _ := "invalid literal for int() with base 10"
  laxNumber _ := none

/-- Integers, and zero for any other token. -/
def integers : Numbers Int where
  finite _ := true
  ofToken t := (intToken t).getD 0
  zero := 0
  times1000 y := y * 1000
  text y := String.ofList (printInt y)

theorem integers_agree : @NumbersAgree Int Unit zeroFloat integers := by
  refine @NumbersAgree.mk Int Unit zeroFloat integers ?_ ?_ ?_ ?_ ?_ ?_ ?_ rfl ?_ rfl ?_
  · intro x _
    rfl
  · intro x
    show "0.0" ∉ _
    decide
  · intro x
    show IsName "0.0".toList
    exact ⟨by decide, by decide, by decide⟩
  · intro y _
    simp [integers, intToken_printInt]
  · intro y h
    cases h
  · intro y _ c hc
    rw [integers, String.toList_ofList] at hc
    exact printInt_numChar y c hc
  · intro y
    rw [integers, String.toList_ofList]
    exact isName_printInt y
  · intro z
    simp [integers, intToken_printInt]
  · intro y _ h
    simp only [integers] at h ⊢
    omega

def relativeRequest (url : List Char) : Option (List Char) :=
  if hasScheme url then none else some url

theorem relativeRequest_read : UrlsRead relativeRequest where
  plain url h := by simp [relativeRequest, h.scheme]
  scheme url h _ := by simp [relativeRequest, h]

def pngSample (metric_id : String) (timestamp : Int) : Sample Unit :=
  ⟨⟨metric_id, .inr timestamp, .file⟩, .file ⟨"a.png", [137, 80]⟩, rfl⟩

theorem png_plain : PlainExtension (extension "a.png") := by
  have he : extension "a.png" = ['p', 'n', 'g'] := by
    simp [extension, List.splitOn_cons_eq_if_modifyHead]
  rw [he]
  refine ⟨rfl, ?_⟩
  rintro c ⟨⟩
  decide

/-- A metric whose directory is the store, at the time `0`. `os.makedirs` takes the path, since it
ends in a dot. -/
theorem url_names_file_at_zero :
    @UrlNamesFile Int integers Unit zeroFloat [] (fun _ _ => True) relativeRequest "/files".toList
      (pngSample "x/../." 0) :=
  (@url_names_file_iff Int integers Unit zeroFloat integers_agree [] (fun _ _ => True)
    relativeRequest relativeRequest_read "/files".toList (pngSample "x/../." 0)
    ⟨"a.png", [137, 80]⟩ rfl).1
    ⟨png_plain, trivial, by
      simp [Path.resolve, Path.walk, pngSample, List.splitOn_cons_eq_if_modifyHead, Path.enter],
      rfl⟩

/-- The image of a camera five seconds after the epoch is not where its url leads. -/
theorem camera_image_not_found : ¬ ∀ (F N : Type) [Primitives F] (n : Numbers N),
    NumbersAgree F n → ∀ (cwd : List Path.Piece) (lets : List Char → List Char → Prop)
      (requested : List Char → Option (List Char)), UrlsRead requested →
      ∀ (fileStoreDir : List Char) (sample : Sample F) (f : FileData), sample.data = .file f →
      UrlNamesFile n cwd lets requested fileStoreDir sample := by
  intro h
  have hu := @h Unit Int zeroFloat integers integers_agree [] (fun _ _ => True) relativeRequest
    relativeRequest_read "/files".toList (pngSample "camera" 5) ⟨"a.png", [137, 80]⟩ rfl
  have hz := (@foundAtZero_of_urlNamesFile Int integers Unit zeroFloat integers_agree [] _ _
    relativeRequest_read _ (pngSample "camera" 5) ⟨"a.png", [137, 80]⟩ rfl png_plain hu).zero
  cases hz

end Openmct
end BvexLink
