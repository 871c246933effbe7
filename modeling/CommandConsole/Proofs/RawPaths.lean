import CommandConsole.Proofs.Directories
import CommandConsole.Proofs.LossyText

/-!
# Directories in bytes

For the host a path is a row of bytes, and only a slash and the dots count in it; its names need
not be text.  A context names its directories by texts, so it speaks of those paths alone that
are texts.  `RawPath` and `RawContext` have the bytes instead, whatever they are.  A move then
writes into `OLDPWD` and `PWD` what can be read of the directories, with a replacement character
for each place that cannot be read (`RawContext.moveTo`).

On texts both are the same: a path is read, normalized and written byte by byte as it is character
by character (`RawPath.ofBytes_encode`, `RawPath.normalize_raw`, `RawPath.toBytes_raw`), and so a
context resolves and moves as its bytes do (`Context.resolve_raw`, `Context.moveTo_raw`).

Beyond texts it makes a difference.  A move leaves behind what `cd -` looks up, and that leads
back just if the directory is a text (`RawContext.target?_back_iff`).
-/

namespace CommandConsole

/-! ## The bytes of joined texts -/

namespace Text

@[simp] theorem encode_ofList (cs : List Char) :
    encode (String.ofList cs) = cs.flatMap String.utf8EncodeChar := by
  rw [encode_eq_flatMap, String.toList_ofList]

theorem encode_append (s t : String) : encode (s ++ t) = encode s ++ encode t := by
  rw [encode_eq_flatMap, encode_eq_flatMap, encode_eq_flatMap, String.toList_append,
    List.flatMap_append]

@[simp] theorem encode_empty : encode "" = [] := encode_ofList []

@[simp] theorem encode_slash : encode "/" = [47] := encode_ofList ['/']

@[simp] theorem encode_dot : encode "." = [46] := encode_ofList ['.']

@[simp] theorem encode_up : encode ".." = [46, 46] := encode_ofList ['.', '.']

theorem encode_eq_empty_iff {s : String} : encode s = [] ↔ s = "" := by
  rw [← encode_empty, encode_injective.eq_iff]

theorem encode_eq_dot_iff {s : String} : encode s = [46] ↔ s = "." := by
  rw [← encode_dot, encode_injective.eq_iff]

theorem encode_eq_up_iff {s : String} : encode s = [46, 46] ↔ s = ".." := by
  rw [← encode_up, encode_injective.eq_iff]

/-- Only a slash has the byte of a slash. -/
theorem slash_mem_bytes {c : Char} : 47 ∈ String.utf8EncodeChar c ↔ c = '/' := by
  constructor
  · intro hm
    have back : Char.ofNat c.val.toNat = c := Char.ofNat_toNat c
    rw [← back]
    simp only [String.utf8EncodeChar] at hm
    generalize c.val.toNat = n at hm
    -- all bytes of a longer character have the highest bit
    split_ifs at hm <;>
      simp only [List.mem_cons, List.not_mem_nil, or_false, ← UInt8.toNat_inj, toNat_lead₂,
        toNat_lead₃, toNat_lead₄, toNat_tail, UInt8.toNat_ofNat', UInt8.toNat_ofNat] at hm
    · rw [show n = 47 by omega]
    all_goals omega
  · rintro rfl
    exact List.mem_cons_self

theorem slash_mem_encode {s : String} : 47 ∈ encode s ↔ '/' ∈ s.toList := by
  rw [encode_eq_flatMap, List.mem_flatMap]
  constructor
  · rintro ⟨c, hc, hm⟩
    rwa [slash_mem_bytes.1 hm] at hc
  · intro hc
    exact ⟨_, hc, slash_mem_bytes.2 rfl⟩

/-- A text begins with a slash if its bytes do. -/
theorem head?_encode {s : String} : (encode s).head? = some 47 ↔ s.toList.head? = some '/' := by
  rw [encode_eq_flatMap]
  cases s.toList with
  | nil => simp
  | cons c cs =>
      have begins : (String.utf8EncodeChar c).head? = some 47 ↔ c = '/' := by
        constructor
        · intro first
          exact slash_mem_bytes.1 (List.mem_of_head? first)
        · rintro rfl
          rfl
      obtain ⟨b, bs, bytes⟩ := List.exists_cons_of_ne_nil (String.utf8EncodeChar_ne_nil (c := c))
      rw [bytes] at begins
      simpa [bytes] using begins

theorem encode_intercalate (texts : List String) :
    encode ("/".intercalate texts) = [47].intercalate (texts.map encode) := by
  rw [encode_eq_flatMap, String.toList_intercalate]
  induction texts with
  | nil => rfl
  | cons s texts ih =>
      cases texts with
      | nil => simp [encode_eq_flatMap]
      | cons t texts =>
          simp only [List.map_cons, List.intercalate_cons_cons, List.flatMap_append] at ih ⊢
          rw [ih, ← encode_eq_flatMap, ← encode_eq_flatMap, encode_slash]

/-- The bytes of a text are cut at a slash where its characters are. -/
theorem splitOn_encode (s : String) :
    (encode s).splitOn 47 = ((s.toList.splitOn '/').map String.ofList).map encode := by
  have whole : s = "/".intercalate ((s.toList.splitOn '/').map String.ofList) := by
    refine String.toList_injective ?_
    have back : String.toList ∘ String.ofList = id := funext fun _ => String.toList_ofList
    rw [String.toList_intercalate, List.map_map, back, List.map_id]
    exact (List.intercalate_splitOn '/').symm
  conv_lhs => rw [whole, encode_intercalate]
  refine List.splitOn_intercalate 47 (fun part hp => ?_) (by simp [List.splitOn_ne_nil])
  simp only [List.map_map, List.mem_map, Function.comp_apply] at hp
  obtain ⟨cs, hcs, rfl⟩ := hp
  rw [slash_mem_encode, String.toList_ofList]
  exact not_mem_of_mem_splitOn hcs

end Text

/-! ## Paths in bytes -/

/-- A path whose steps are rows of bytes. -/
structure RawPath where
  rooted : Bool
  steps : List (List UInt8)
  deriving DecidableEq

/-- A path of texts, in bytes. -/
def Path.raw (p : Path) : RawPath := ⟨p.rooted, p.steps.map Text.encode⟩

namespace RawPath

/-- Reads a path, as `Path.ofText` does.  The byte of a slash is 47, that of a dot 46. -/
def ofBytes (bs : List UInt8) : RawPath :=
  ⟨bs.head? == some 47, (bs.splitOn 47).filter fun step => step != [] && step != [46]⟩

/-- Writes a path. -/
def toBytes (p : RawPath) : List UInt8 :=
  if p.rooted then 47 :: [47].intercalate p.steps
  else if p.steps.isEmpty then [46]
  else [47].intercalate p.steps

/-- One step of normalizing. -/
def take (rooted : Bool) (taken : List (List UInt8)) (step : List UInt8) : List (List UInt8) :=
  if step = [46, 46] then
    match taken with
    | _ :: before => before
    | [] => if rooted then [] else [step]
  else step :: taken

/-- Takes every `..` against the step before it. -/
def normalize (p : RawPath) : RawPath :=
  ⟨p.rooted, (p.steps.foldl (take p.rooted) []).reverse⟩

/-- The path that `q` names from the directory `p`. -/
def join (p q : RawPath) : RawPath := if q.rooted then q else ⟨p.rooted, p.steps ++ q.steps⟩

/-- **An absolute row of bytes that normalizing leaves alone.** -/
def IsCanonical (bs : List UInt8) : Prop :=
  bs.head? = some 47 ∧ (ofBytes bs).normalize.toBytes = bs

theorem ofBytes_encode (s : String) : ofBytes (Text.encode s) = (Path.ofText s).raw := by
  have rooted : ((Text.encode s).head? == some 47) = (s.toList.head? == some '/') := by
    rw [Bool.eq_iff_iff, beq_iff_eq, beq_iff_eq]
    exact Text.head?_encode
  have kept : (fun step => step != [] && step != [46]) ∘ Text.encode =
      fun step : String => step != "" && step != "." := by
    funext step
    rw [Bool.eq_iff_iff]
    simp [Text.encode_eq_empty_iff, Text.encode_eq_dot_iff]
  rw [ofBytes, Path.raw, Path.ofText, rooted, Text.splitOn_encode, List.filter_map, kept]

theorem toBytes_raw (p : Path) : p.raw.toBytes = Text.encode p.toText := by
  rw [toBytes, Path.toText, Path.raw, List.isEmpty_map]
  split_ifs
  · rw [Text.encode_append, Text.encode_intercalate, Text.encode_slash]
    rfl
  · exact Text.encode_dot.symm
  · exact (Text.encode_intercalate p.steps).symm

theorem join_raw (p q : Path) : p.raw.join q.raw = (p.join q).raw := by
  rw [join, Path.join, Path.raw, Path.raw]
  split_ifs
  · rfl
  · rw [Path.raw, List.map_append]

theorem take_encode (rooted : Bool) (taken : List String) (step : String) :
    take rooted (taken.map Text.encode) (Text.encode step) =
      (Path.take rooted taken step).map Text.encode := by
  by_cases h : step = ".."
  · subst h
    rw [Text.encode_up]
    cases taken with
    | cons last before => rfl
    | nil =>
        cases rooted with
        | true => rfl
        | false =>
            rw [Path.take_up_nowhere, List.map_singleton, Text.encode_up]
            rfl
  · rw [Path.take_of_ne h]
    exact if_neg (mt Text.encode_eq_up_iff.1 h)

theorem normalize_raw (p : Path) : p.raw.normalize = p.normalize.raw := by
  have fold (steps taken : List String) :
      (steps.map Text.encode).foldl (take p.rooted) (taken.map Text.encode) =
        (steps.foldl (Path.take p.rooted) taken).map Text.encode := by
    induction steps generalizing taken with
    | nil => rfl
    | cons step steps ih =>
        rw [List.map_cons, List.foldl_cons, take_encode]
        exact ih _
  rw [normalize, Path.normalize, Path.raw, Path.raw, List.map_reverse]
  exact congrArg (fun steps => (⟨p.rooted, steps.reverse⟩ : RawPath)) (fold p.steps [])

/-- The normal form of a text. -/
theorem normalize_encode (s : String) :
    (ofBytes (Text.encode s)).normalize.toBytes = Text.encode (Path.normalizeText s) := by
  rw [ofBytes_encode, normalize_raw, toBytes_raw, Path.normalizeText]

theorem isCanonical_encode {s : String} : IsCanonical (Text.encode s) ↔ Path.IsCanonical s := by
  rw [IsCanonical, normalize_encode, Text.head?_encode, Text.encode_injective.eq_iff,
    Path.isCanonical_iff, Path.isAbsolute, beq_iff_eq]

end RawPath

/-! ## Contexts in bytes -/

/-- **What a line runs against**, with its directories in bytes. -/
structure RawContext where
  directory : List UInt8
  environment : Dictionary String
  aliases : Dictionary String
  shellVariables : Dictionary String
  home : List UInt8

namespace RawContext

/-- A variable, wherever it is kept. -/
def lookup? (c : RawContext) (name : String) : Option String :=
  c.environment.get? name <|> c.shellVariables.get? name

/-- The path that a text names, with a tilde in front expanded. -/
def expanded (c : RawContext) (text : String) : RawPath :=
  match text.toList with
  | ['~'] => .ofBytes c.home
  | '~' :: '/' :: rest =>
    (RawPath.ofBytes c.home).join (.ofBytes (Text.encode (String.ofList rest)))
  | _ => .ofBytes (Text.encode text)

/-- The path that a text stands for, in normal form. -/
def resolve (c : RawContext) (text : String) : List UInt8 :=
  ((RawPath.ofBytes c.directory).join (c.expanded text)).normalize.toBytes

/-- **Moves to a directory.**  `OLDPWD` and `PWD` get what can be read of the directory before
and of this one. -/
def moveTo (c : RawContext) (there : List UInt8) : RawContext :=
  { c with
    directory := there
    environment := (c.environment.insert "OLDPWD" (Text.decodeLossy c.directory)).insert "PWD"
      (Text.decodeLossy there) }

/-- Where `cd` moves to, by its first argument. -/
def target? (c : RawContext) : Option String → Option (List UInt8)
  | none => some c.home
  | some "-" => (c.lookup? "OLDPWD").map c.resolve
  | some path => some (c.resolve path)

end RawContext

namespace Context

/-- A context, in bytes. -/
def raw (c : Context) : RawContext :=
  ⟨Text.encode c.workingDirectory, c.environment, c.aliases, c.shellVariables,
    Text.encode c.homeDirectory⟩

theorem expanded_raw (c : Context) (text : String) :
    c.raw.expanded text = (c.expanded text).raw := by
  unfold RawContext.expanded
  split
  · rename_i alone
    simp only [expanded, alone]
    exact RawPath.ofBytes_encode _
  · rename_i front
    simp only [expanded, front]
    rw [raw, RawPath.ofBytes_encode, RawPath.ofBytes_encode, RawPath.join_raw]
  · rename_i other_than_home below_home
    unfold expanded
    split
    · exact absurd ‹_› other_than_home
    · exact absurd ‹_› (below_home _)
    · exact RawPath.ofBytes_encode _

/-- A context resolves as its bytes do. -/
theorem resolve_raw (c : Context) (text : String) :
    c.raw.resolve text = Text.encode (c.resolve text) := by
  have directory : RawPath.ofBytes c.raw.directory = (Path.ofText c.workingDirectory).raw :=
    RawPath.ofBytes_encode _
  rw [RawContext.resolve, expanded_raw, directory, RawPath.join_raw, RawPath.normalize_raw,
    RawPath.toBytes_raw]
  rfl

/-- A context moves as its bytes do. -/
theorem moveTo_raw (c : Context) (there : String) :
    (c.apply (.moveTo there)).raw = c.raw.moveTo (Text.encode there) := by
  rw [RawContext.moveTo, Text.decodeLossy_encode, raw, raw, Text.decodeLossy_encode]
  rfl

end Context

namespace RawContext
variable {c : RawContext}

/-- An absolute text is resolved to its normal form, in every context. -/
theorem resolve_of_isAbsolute {text : String} (h : Path.isAbsolute text = true) (c : RawContext) :
    c.resolve text = Text.encode (Path.normalizeText text) := by
  have rooted : (Path.ofText text).rooted = true := h
  have first : text.toList.head? = some '/' := beq_iff_eq.1 h
  have plain : c.expanded text = RawPath.ofBytes (Text.encode text) := by
    unfold expanded
    split
    · rename_i alone
      rw [alone] at first
      cases first
    · rename_i front
      rw [front] at first
      cases first
    · rfl
  rw [resolve, plain, RawPath.join, if_pos (by rw [RawPath.ofBytes_encode]; exact rooted),
    RawPath.normalize_encode]

/-- What programs see after a move. -/
theorem get?_moveTo (c : RawContext) (there : List UInt8) (name : String) :
    (c.moveTo there).environment.get? name =
      if "PWD" = name then some (Text.decodeLossy there)
      else if "OLDPWD" = name then some (Text.decodeLossy c.directory)
      else c.environment.get? name := by
  rw [moveTo, Dictionary.get?_insert, Dictionary.get?_insert]

/-- What is found in `OLDPWD` after a move, before a variable of the console's own. -/
theorem lookup?_moveTo (c : RawContext) (there : List UInt8) :
    (c.moveTo there).lookup? "OLDPWD" = some (Text.decodeLossy c.directory) := by
  rw [lookup?, get?_moveTo]
  rfl

/-- Any argument but a hyphen is a path. -/
theorem target?_of_ne {path : String} (h : path ≠ "-") :
    c.target? (some path) = some (c.resolve path) := by
  rw [target?]
  exact h

/-- What is read of an absolute row of bytes is absolute. -/
theorem isAbsolute_decodeLossy {bs : List UInt8} (h : bs.head? = some 47) :
    Path.isAbsolute (Text.decodeLossy bs) = true := by
  obtain ⟨rest, rfl⟩ := List.head?_eq_some_iff.1 h
  rw [Text.decodeLossy, Text.decode, Path.isAbsolute, String.toList_ofList]
  rfl

/-- **Where `cd -` leads behind a move**: to the normal form of what can be read of the directory
before. -/
theorem target?_back (absolute : c.directory.head? = some 47) (there : List UInt8) :
    (c.moveTo there).target? (some "-") =
      some (Text.encode (Path.normalizeText (Text.decodeLossy c.directory))) := by
  rw [target?, lookup?_moveTo, Option.map_some,
    resolve_of_isAbsolute (isAbsolute_decodeLossy absolute)]

/-- **`cd -` leads back just to directories that are texts.** -/
theorem target?_back_iff (canonical : RawPath.IsCanonical c.directory) (there : List UInt8) :
    (c.moveTo there).target? (some "-") = some c.directory ↔
      ∃ s, c.directory = Text.encode s := by
  rw [target?_back canonical.1, Option.some.injEq]
  constructor
  · intro back
    exact ⟨_, back.symm⟩
  · rintro ⟨s, text⟩
    rw [text, RawPath.isCanonical_encode] at canonical
    rw [text, Text.decodeLossy_encode, canonical.normalizeText_eq]

end RawContext

end CommandConsole
