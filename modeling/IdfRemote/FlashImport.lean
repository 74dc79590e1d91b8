import IdfRemote.FlashManifest
import IdfRemote.Radix
import IdfRemote.Value

/-!
# Importing a build

The build system describes what is to be flashed in a manifest; the client makes a plan of it,
all images or selected ones, and refuses what it does not implement. How serde reads the
manifest and an entry for an image are parameters.
-/
namespace IdfRemote.FlashImport
open Checked SectorLayout FlashLayout Radix

/-- A map as its entries in the order in which they are visited. -/
structure BTreeMap (α : Type) where
  entries : List (String × α)
  nodup : (entries.map Prod.fst).Nodup

structure ExtraArgs where
  chip : String
  before : String
  after : String
  stub : Bool

structure Manifest (Path : Type) where
  flashFiles : BTreeMap Path
  flashSettings : BTreeMap String
  writeFlashArgs : List String
  extraEsptoolArgs : ExtraArgs
  images : BTreeMap Value

structure Image (Path : Type) where
  offset : String
  file : Path
  encrypted : Bool

structure ImportWarning (Path : Type) where
  image : Option String
  offset : UInt32
  file : Path

structure Import (Path : Type) where
  plan : FlashPlan Path
  warnings : List (ImportWarning Path)

/-- The files of a build, and serde's reading of an image. -/
structure Build (Path : Type) where
  join : Path → Path → Path
  display : Path → String
  size : Path → Result ℕ
  image : Value → Result (Image Path)

/-- The two notations, after `strip_prefix`. -/
def readOffset : List Char → Result ℕ
  | '0' :: 'x' :: hex => fromStrRadix 16 (2 ^ 32) hex
  | '0' :: 'X' :: hex => fromStrRadix 16 (2 ^ 32) hex
  | text => fromStrRadix 10 (2 ^ 32) text

def parseOffset (value : String) : Result UInt32 :=
  (withContext ("invalid flash offset: " ++ value) (readOffset value.toList)).map UInt32.ofNat

def encryptedValue : Value → Result Bool
  | .bool value => .ok value
  | .string "true" => .ok true
  | .string "false" => .ok false
  | _ => .error (.msg "encrypted must be true/false or the corresponding string")

/-- `replace('-', "_")`. -/
def underscored (text : String) : String :=
  String.ofList (text.toList.map fun c => if c = '-' then '_' else c)

def settingKey (arg : String) : String :=
  String.ofList ((underscored arg).toList.dropWhile (· = '_'))

def settingNames : List String := ["flash_mode", "flash_freq", "flash_size"]

/-- The loop over the arguments with its variable `settings`. -/
def readArgs : List String → List (String × String) → Result (List (String × String))
  | [], settings => .ok settings
  | [arg], _ => do
      ensure (settingKey arg ∈ settingNames) ("unsupported write_flash argument: " ++ arg)
      .error (.msg ("missing value for " ++ arg))
  | arg :: value :: rest, settings => do
      ensure (settingKey arg ∈ settingNames) ("unsupported write_flash argument: " ++ arg)
      ensure (settings.lookup (settingKey arg)).isNone ("duplicate argument: " ++ arg)
      readArgs rest (settings ++ [(settingKey arg, value)])

/-- A name is enough; then the entry is asked. -/
def encryptedEntry (entry : String × Value) : Result Bool :=
  if "encrypt".toList <:+: entry.1.toList then .ok true
  else
    match entry.2.get "encrypted" with
    | none => .ok false
    | some value => encryptedValue value

def checkImages : List (String × Value) → Result Unit
  | [] => .ok ()
  | entry :: rest => do
      let encrypted ← encryptedEntry entry
      ensure (!encrypted) ("encrypted flash entries are not supported: " ++ entry.1)
      checkImages rest

section Import
variable {Path : Type} [DecidableEq Path] (build : Build Path) (base : Path)

/-- The first entry that names the file at the offset; others are passed over. -/
def imageName (images : List (String × Value)) (offset : UInt32) (file : Path) : Option String :=
  images.findSome? fun entry =>
    match build.image entry.2 with
    | .error _ => none
    | .ok image =>
        if (parseOffset image.offset).toOption = some offset ∧ image.file = file then some entry.1
        else none

def inspect (file : Path) : Result ℕ :=
  withContext ("inspect artifact " ++ build.display (build.join base file))
    (build.size (build.join base file))

/-- The files in the order of their keys. An empty one becomes a warning. -/
def importAll (images : List (String × Value)) :
    List (String × Path) → Result (List (FileSegment Path) × List (ImportWarning Path))
  | [] => .ok ([], [])
  | (key, file) :: rest => do
      let offset ← parseOffset key
      let size ← inspect build base file
      let (segments, warnings) ← importAll images rest
      if size = 0 then
        return (segments, { image := imageName build images offset file, offset, file } :: warnings)
      else return ({ offset, file } :: segments, warnings)

/-- The loop over the names with its variable `seen`. -/
def importSelected (images : List (String × Value)) (flashFiles : List (String × Path)) :
    List String → List String → Result (List (FileSegment Path))
  | [], _ => .ok []
  | name :: rest, seen => do
      ensure (name ∉ seen) ("duplicate image selection: " ++ name)
      let value ← orContext ("unknown image '" ++ name ++ "'; available images: " ++
        ", ".intercalate (images.map Prod.fst)) (images.lookup name)
      let image ← withContext ("invalid image entry '" ++ name ++ "'") (build.image value)
      ensure (!image.encrypted) ("encrypted image is not supported: " ++ name)
      let offset ← parseOffset image.offset
      ensure (flashFiles.any fun entry =>
          (parseOffset entry.1).toOption = some offset ∧ entry.2 = image.file)
        (name ++ " entry does not match flash_files")
      let size ← inspect build base image.file
      ensure (0 < size) ("selected image '" ++ name ++ "' is empty: " ++
        build.display (build.join base image.file))
      let segments ← importSelected images flashFiles rest (name :: seen)
      return { offset, file := image.file } :: segments

def importFiles (manifest : Manifest Path) (selectedImages : List String) :
    Result (List (FileSegment Path) × List (ImportWarning Path)) :=
  if selectedImages = [] then
    importAll build base manifest.images.entries manifest.flashFiles.entries
  else
    (importSelected build base manifest.images.entries manifest.flashFiles.entries selectedImages
      []).map fun segments => (segments, [])

/-- `import`, with what `read_json` has returned. -/
def importManifest (manifest : Result (Manifest Path)) (selectedImages : List String) :
    Result (Import Path) := do
  let manifest ← manifest
  ensure (underscored manifest.extraEsptoolArgs.before = "default_reset" ∧
      underscored manifest.extraEsptoolArgs.after = "hard_reset" ∧ manifest.extraEsptoolArgs.stub)
    ("manifest requires default_reset, hard_reset and stub=true; custom reset/no-stub " ++
      "manifests are not supported")
  checkImages manifest.images.entries
  let settings ← readArgs manifest.writeFlashArgs []
  ensure (settings.Perm manifest.flashSettings.entries)
    "flash_settings and write_flash_args disagree"
  ensure (settings.length = 3) "expected flash_mode, flash_freq and flash_size"
  let (segments, warnings) ← importFiles build base manifest selectedImages
  ensure (segments ≠ []) "flasher_args.json contains no non-empty images to flash"
  return {
    plan := {
      version := 1
      chip := manifest.extraEsptoolArgs.chip
      flashSettings := {
        mode := settings.lookup "flash_mode"
        frequency := settings.lookup "flash_freq"
        size := settings.lookup "flash_size" }
      segments }
    warnings }

end Import

/-- A number as a text: in hexadecimal digits behind `0x`, or in decimal digits, with a sign or
without one. -/
inductive Spells (text : List Char) (n : ℕ) : Prop
  | hexadecimal (x : Char) (hx : x = 'x' ∨ x = 'X') (digits : List Char) (hne : digits ≠ [])
      (htext : text = '0' :: x :: digits ∨ text = '0' :: x :: '+' :: digits)
      (hworth : worth 16 digits 0 = some n)
  | decimal (digits : List Char) (hne : digits ≠ [])
      (htext : text = digits ∨ text = '+' :: digits) (hworth : worth 10 digits 0 = some n)

theorem hexadecimal_iff {x : Char} (hx : x = 'x' ∨ x = 'X') {digits : List Char} {n : ℕ} :
    fromStrRadix 16 (2 ^ 32) digits = .ok n ↔ Spells ('0' :: x :: digits) n ∧ n < 2 ^ 32 := by
  rw [fromStrRadix_ok_iff (by decide) (by decide)]
  constructor
  · rintro ⟨ds, hne, htext, hworth, hlt⟩
    refine ⟨.hexadecimal x hx ds hne ?_ hworth, hlt⟩
    exact htext.imp (congrArg fun text => '0' :: x :: text) (congrArg fun text => '0' :: x :: text)
  · rintro ⟨hspells, hlt⟩
    cases hspells with
    | hexadecimal y hy ds hne htext hworth =>
        refine ⟨ds, hne, ?_, hworth, hlt⟩
        exact htext.imp (fun h => (List.cons.inj (List.cons.inj h).2).2)
          (fun h => (List.cons.inj (List.cons.inj h).2).2)
    | decimal ds hne htext hworth =>
        -- an `x` is no decimal digit
        have hletter : toDigit 10 x = none := by
          rcases hx with rfl | rfl <;> decide
        rcases htext with rfl | htext
        · simp [worth, hletter] at hworth
        · cases htext

theorem decimal_iff {text : List Char} (hplain : ∀ x, (x = 'x' ∨ x = 'X') → ∀ hex,
    text ≠ '0' :: x :: hex) {n : ℕ} :
    fromStrRadix 10 (2 ^ 32) text = .ok n ↔ Spells text n ∧ n < 2 ^ 32 := by
  rw [fromStrRadix_ok_iff (by decide) (by decide)]
  constructor
  · rintro ⟨ds, hne, htext, hworth, hlt⟩
    exact ⟨.decimal ds hne htext hworth, hlt⟩
  · rintro ⟨hspells, hlt⟩
    cases hspells with
    | hexadecimal y hy ds hne htext hworth =>
        exact absurd htext (not_or.mpr ⟨hplain y hy _, hplain y hy _⟩)
    | decimal ds hne htext hworth => exact ⟨ds, hne, htext, hworth, hlt⟩

theorem readOffset_ok_iff {text : List Char} {n : ℕ} :
    readOffset text = .ok n ↔ Spells text n ∧ n < 2 ^ 32 := by
  unfold readOffset
  split
  · exact hexadecimal_iff (.inl rfl)
  · exact hexadecimal_iff (.inr rfl)
  · next hlower hupper =>
    refine decimal_iff fun x hx hex htext => ?_
    rcases hx with rfl | rfl
    · exact hlower hex htext
    · exact hupper hex htext

theorem parseOffset_ok_iff {text : String} {n : UInt32} :
    parseOffset text = .ok n ↔ Spells text.toList n.toNat := by
  have hspells : Spells text.toList n.toNat ↔ readOffset text.toList = .ok n.toNat := by
    rw [readOffset_ok_iff]
    exact ⟨fun h => ⟨h, n.toNat_lt⟩, And.left⟩
  rw [parseOffset, hspells]
  cases hvalue : readOffset text.toList with
  | error e => simp [withContext, Except.mapError, Except.map]
  | ok m =>
      have hlt := (readOffset_ok_iff.mp hvalue).2
      change Except.ok (UInt32.ofNat m) = Except.ok n ↔ _
      rw [Except.ok.injEq, Except.ok.injEq]
      constructor
      · rintro rfl
        exact (UInt32.toNat_ofNat_of_lt hlt).symm
      · rintro rfl
        exact UInt32.ofNat_toNat

/-- What is accepted as an offset is a number below `2 ^ 32` in one of two notations, and both
notations of any such number are. -/
theorem offsets_round_trip :
    (∀ (text : String) (n : UInt32), parseOffset text = .ok n ↔ Spells text.toList n.toNat) ∧
      ∀ n : UInt32, parseOffset (hex n) = .ok n ∧ parseOffset (toString n.toNat) = .ok n := by
  refine ⟨fun _ _ => parseOffset_ok_iff, fun n => ⟨?_, ?_⟩⟩
  · refine parseOffset_ok_iff.mpr (.hexadecimal 'x' (.inl rfl) (Nat.toDigits 16 n.toNat)
      Nat.toDigits_ne_nil (.inl ?_) (worth_toDigits (by decide) (by decide) _))
    simp [hex]
  · refine parseOffset_ok_iff.mpr (.decimal (Nat.toDigits 10 n.toNat) Nat.toDigits_ne_nil
      (.inl ?_) (worth_toDigits (by decide) (by decide) _))
    rw [Nat.toString_eq_repr, Nat.toList_repr]

def settingOf (q : String × String) : String × String := (settingKey q.1, q.2)

/-- The arguments are pairs of a known key and a value, and no key occurs twice. -/
theorem readArgs_ok_iff {arguments : List String} {settings out : List (String × String)} :
    readArgs arguments settings = .ok out ↔ ∃ pairs : List (String × String),
      arguments = pairs.flatMap (fun q => [q.1, q.2]) ∧
      (∀ q ∈ pairs, settingKey q.1 ∈ settingNames ∧ settings.lookup (settingKey q.1) = none) ∧
      ((pairs.map settingOf).map Prod.fst).Nodup ∧ out = settings ++ pairs.map settingOf := by
  fun_induction readArgs arguments settings with
  | case1 settings =>
      constructor
      · intro h
        obtain rfl := Except.ok.inj h
        exact ⟨[], rfl, by simp, List.nodup_nil, by simp⟩
      · rintro ⟨pairs, hpairs, -, -, rfl⟩
        cases pairs with
        | nil => simp
        | cons q pairs => cases hpairs
  | case2 arg settings =>
      constructor
      · intro h
        cases (ensure_bind h).2
      · rintro ⟨pairs, hpairs, -⟩
        cases pairs with
        | nil => cases hpairs
        | cons q pairs => cases hpairs
  | case3 arg value rest settings ih =>
      have hlookup : ∀ key, (settings ++ [(settingKey arg, value)]).lookup key = none ↔
          settings.lookup key = none ∧ key ≠ settingKey arg := by
        intro key
        rw [List.lookup_append, Option.or_eq_none_iff, List.lookup_eq_none_iff (l := [_])]
        simp
      constructor
      · intro h
        obtain ⟨hkey, h⟩ := ensure_bind h
        obtain ⟨hfresh, h⟩ := ensure_bind h
        obtain ⟨pairs, rfl, hall, hnodup, rfl⟩ := ih.mp h
        refine ⟨(arg, value) :: pairs, rfl, List.forall_mem_cons.mpr
          ⟨⟨of_decide_eq_true hkey, Option.isNone_iff_eq_none.mp hfresh⟩, fun q hq => ?_⟩, ?_, ?_⟩
        · exact ⟨(hall q hq).1, ((hlookup _).mp (hall q hq).2).1⟩
        · refine List.nodup_cons.mpr ⟨fun hmem => ?_, hnodup⟩
          rw [List.map_map] at hmem
          obtain ⟨q, hq, hsame⟩ := List.mem_map.mp hmem
          exact ((hlookup _).mp (hall q hq).2).2 hsame
        · rw [List.map_cons, List.append_assoc]
          rfl
      · rintro ⟨pairs, hpairs, hall, hnodup, rfl⟩
        cases pairs with
        | nil => cases hpairs
        | cons q pairs =>
            obtain ⟨rfl, hrest⟩ := List.cons.inj hpairs
            obtain ⟨rfl, rfl⟩ := List.cons.inj hrest
            obtain ⟨⟨hkey, hfresh⟩, hall⟩ := List.forall_mem_cons.mp hall
            obtain ⟨hnew, hnodup⟩ := List.nodup_cons.mp hnodup
            rw [decide_eq_true hkey, Option.isNone_iff_eq_none.mpr hfresh]
            refine ih.mpr ⟨pairs, rfl, fun p hp => ⟨(hall p hp).1, (hlookup _).mpr
              ⟨(hall p hp).2, fun hsame => hnew ?_⟩⟩, hnodup, ?_⟩
            · rw [List.map_map]
              exact List.mem_map.mpr ⟨p, hp, hsame⟩
            · rw [List.map_cons, List.append_assoc]
              rfl

/-- An image that is not encrypted, by its name and by its entry. -/
def Plain (entry : String × Value) : Prop :=
  ¬ "encrypt".toList <:+: entry.1.toList ∧
    ∀ value, entry.2.get "encrypted" = some value → encryptedValue value = .ok false

theorem encryptedEntry_eq_false {entry : String × Value} :
    encryptedEntry entry = .ok false ↔ Plain entry := by
  unfold encryptedEntry Plain
  split
  · next hname => exact ⟨(fun h => by cases h), fun h => absurd hname h.1⟩
  · next hname =>
    cases hget : entry.2.get "encrypted" with
    | none => exact ⟨fun _ => ⟨hname, (fun _ h => by cases h)⟩, fun _ => rfl⟩
    | some value =>
        exact ⟨fun h => ⟨hname, fun _ hv => Option.some.inj hv ▸ h⟩, fun h => h.2 value rfl⟩

theorem checkImages_ok_iff {images : List (String × Value)} :
    checkImages images = .ok () ↔ ∀ entry ∈ images, Plain entry := by
  induction images with
  | nil => exact ⟨fun _ => by simp, fun _ => rfl⟩
  | cons entry images ih =>
      rw [List.forall_mem_cons, ← ih, ← encryptedEntry_eq_false]
      constructor
      · intro h
        obtain ⟨encrypted, hencrypted, h⟩ := result_bind h
        obtain ⟨hplain, h⟩ := ensure_bind h
        obtain rfl : encrypted = false := by simpa using hplain
        exact ⟨hencrypted, h⟩
      · rintro ⟨hencrypted, h⟩
        rw [checkImages, hencrypted]
        exact h

theorem lookup_iff_mem {α : Type} {entries : List (String × α)}
    (hnodup : (entries.map Prod.fst).Nodup) {key : String} {value : α} :
    entries.lookup key = some value ↔ (key, value) ∈ entries := by
  induction entries with
  | nil => simp
  | cons e entries ih =>
      obtain ⟨hnew, hrest⟩ := List.nodup_cons.mp hnodup
      obtain ⟨k, v⟩ := e
      rw [List.lookup_cons, List.mem_cons]
      by_cases hk : key = k
      · subst hk
        have habsent : (key, value) ∉ entries := fun h => hnew (List.mem_map.mpr ⟨_, h, rfl⟩)
        simp [habsent, eq_comm]
      · have hne : (key == k) = false := by simpa using hk
        rw [hne, ih hrest]
        simp [hk]

/-- The three settings with their values. -/
def spelled (mode frequency size : String) : List (String × String) :=
  [("flash_mode", mode), ("flash_freq", frequency), ("flash_size", size)]

/-- Three known keys are all there are. -/
theorem perm_spelled {entries : List (String × String)} (hnodup : (entries.map Prod.fst).Nodup)
    (hknown : ∀ key ∈ entries.map Prod.fst, key ∈ settingNames) (hlength : entries.length = 3) :
    ∃ mode frequency size, entries.Perm (spelled mode frequency size) := by
  have hkeys : (entries.map Prod.fst).Perm settingNames :=
    (List.subperm_of_subset hnodup hknown).perm_of_length_le (by simp [settingNames, hlength])
  have hvalue : ∀ key ∈ settingNames, ∃ value, (key, value) ∈ entries := fun key hkey => by
    obtain ⟨e, he, rfl⟩ := List.mem_map.mp (hkeys.mem_iff.mpr hkey)
    exact ⟨e.2, he⟩
  obtain ⟨mode, hmode⟩ := hvalue "flash_mode" (by decide)
  obtain ⟨frequency, hfrequency⟩ := hvalue "flash_freq" (by decide)
  obtain ⟨size, hsize⟩ := hvalue "flash_size" (by decide)
  refine ⟨mode, frequency, size, List.Perm.symm ?_⟩
  refine (List.subperm_of_subset (by simp [spelled]) ?_).perm_of_length_le
    (by simp [spelled, hlength])
  intro e he
  simp only [spelled, List.mem_cons, List.not_mem_nil, or_false] at he
  rcases he with rfl | rfl | rfl
  · exact hmode
  · exact hfrequency
  · exact hsize

/-- What the import implements of esptool: its arguments are the settings, in any order. -/
structure Supported {Path : Type} (manifest : Manifest Path) (settings : FlashSettings) :
    Prop where
  reset : underscored manifest.extraEsptoolArgs.before = "default_reset" ∧
    underscored manifest.extraEsptoolArgs.after = "hard_reset" ∧
    manifest.extraEsptoolArgs.stub = true
  plain : ∀ entry ∈ manifest.images.entries, Plain entry
  arguments : ∃ pairs : List (String × String),
    manifest.writeFlashArgs = pairs.flatMap (fun q => [q.1, q.2]) ∧
      (pairs.map settingOf).Perm manifest.flashSettings.entries
  settings : ∃ mode frequency size,
    manifest.flashSettings.entries.Perm (spelled mode frequency size) ∧
      settings = { mode := some mode, frequency := some frequency, size := some size }

section Import
variable {Path : Type} {build : Build Path} {base : Path}

/-- A file of the manifest with its offset and its size. -/
structure Found (build : Build Path) (base : Path) (entry : String × Path)
    (place : UInt32 × ℕ) : Prop where
  offset : Spells entry.1.toList place.1.toNat
  size : build.size (build.join base entry.2) = .ok place.2

theorem inspect_ok_iff {file : Path} {size : ℕ} :
    inspect build base file = .ok size ↔ build.size (build.join base file) = .ok size := by
  unfold inspect
  cases build.size (build.join base file) with
  | error e => exact ⟨(fun h => by cases h), (fun h => by cases h)⟩
  | ok n => exact Iff.rfl

def segmentOf (q : (String × Path) × (UInt32 × ℕ)) : Option (FileSegment Path) :=
  if q.2.2 = 0 then none else some { offset := q.2.1, file := q.1.2 }

variable [DecidableEq Path]

def warningOf (build : Build Path) (images : List (String × Value))
    (q : (String × Path) × (UInt32 × ℕ)) : Option (ImportWarning Path) :=
  if q.2.2 = 0 then
    some { image := imageName build images q.2.1 q.1.2, offset := q.2.1, file := q.1.2 }
  else none

theorem importAll_ok_iff {images : List (String × Value)} {entries : List (String × Path)}
    {segments : List (FileSegment Path)} {warnings : List (ImportWarning Path)} :
    importAll build base images entries = .ok (segments, warnings) ↔
      ∃ places, List.Forall₂ (Found build base) entries places ∧
        segments = (entries.zip places).filterMap segmentOf ∧
        warnings = (entries.zip places).filterMap (warningOf build images) := by
  induction entries generalizing segments warnings with
  | nil =>
      constructor
      · intro h
        obtain ⟨rfl, rfl⟩ := Prod.mk.inj (Except.ok.inj h)
        exact ⟨[], .nil, rfl, rfl⟩
      · rintro ⟨places, hplaces, rfl, rfl⟩
        rfl
  | cons entry entries ih =>
      obtain ⟨key, file⟩ := entry
      constructor
      · intro h
        obtain ⟨offset, hoffset, h⟩ := result_bind h
        obtain ⟨size, hsize, h⟩ := result_bind h
        obtain ⟨⟨segments', warnings'⟩, hrest, h⟩ := result_bind h
        obtain ⟨places, hplaces, rfl, rfl⟩ := ih.mp hrest
        dsimp only at h
        refine ⟨(offset, size) :: places, .cons ⟨parseOffset_ok_iff.mp hoffset,
          inspect_ok_iff.mp hsize⟩ hplaces, ?_⟩
        rw [List.zip_cons_cons]
        by_cases hempty : size = 0
        · rw [if_pos hempty] at h
          obtain ⟨rfl, rfl⟩ := Prod.mk.inj (Except.ok.inj h)
          simp [segmentOf, warningOf, hempty]
        · rw [if_neg hempty] at h
          obtain ⟨rfl, rfl⟩ := Prod.mk.inj (Except.ok.inj h)
          simp [segmentOf, warningOf, hempty]
      · rintro ⟨places, hplaces, rfl, rfl⟩
        obtain ⟨⟨offset, size⟩, rest, hfound, hrest, rfl⟩ := List.forall₂_cons_left_iff.mp hplaces
        have htail := ih.mpr ⟨rest, hrest, rfl, rfl⟩
        unfold importAll
        rw [parseOffset_ok_iff.mpr hfound.offset, inspect_ok_iff.mpr hfound.size, htail,
          List.zip_cons_cons]
        by_cases hempty : size = 0
        · simp [segmentOf, warningOf, hempty, bind, Except.bind, pure, Except.pure]
        · simp [segmentOf, warningOf, hempty, bind, Except.bind, pure, Except.pure]

/-- An image of this name that is not encrypted and not empty, as the files of the manifest have
it. -/
structure Chosen (build : Build Path) (base : Path) (manifest : Manifest Path) (name : String)
    (s : FileSegment Path) : Prop where
  image : ∃ value image, manifest.images.entries.lookup name = some value ∧
    build.image value = .ok image ∧ image.encrypted = false ∧
    Spells image.offset.toList s.offset.toNat ∧ image.file = s.file
  file : ∃ key, (key, s.file) ∈ manifest.flashFiles.entries ∧ Spells key.toList s.offset.toNat
  size : ∃ size, build.size (build.join base s.file) = .ok size ∧ 0 < size

theorem orContext_eq_ok {α : Type} {message : String} {x : Option α} {a : α} :
    orContext message x = .ok a ↔ x = some a := by
  cases x with
  | none => exact ⟨(fun h => by cases h), (fun h => by cases h)⟩
  | some b => exact ⟨fun h => congrArg some (Except.ok.inj h), fun h => by cases h; rfl⟩

theorem any_matching {entries : List (String × Path)} {offset : UInt32} {file : Path} :
    (entries.any fun entry =>
        (parseOffset entry.1).toOption = some offset ∧ entry.2 = file) = true ↔
      ∃ key, (key, file) ∈ entries ∧ Spells key.toList offset.toNat := by
  have hparse : ∀ key, (parseOffset key).toOption = some offset ↔
      Spells key.toList offset.toNat := by
    intro key
    rw [← parseOffset_ok_iff]
    cases parseOffset key with
    | error e => exact ⟨(fun h => by cases h), (fun h => by cases h)⟩
    | ok n => exact ⟨fun h => congrArg _ (Option.some.inj h), fun h => congrArg _ (Except.ok.inj h)⟩
  rw [List.any_eq_true]
  constructor
  · rintro ⟨⟨key, file'⟩, hmem, hmatch⟩
    obtain ⟨hoffset, rfl⟩ := of_decide_eq_true hmatch
    exact ⟨key, hmem, (hparse key).mp hoffset⟩
  · rintro ⟨key, hmem, hspells⟩
    exact ⟨(key, file), hmem, decide_eq_true ⟨(hparse key).mpr hspells, rfl⟩⟩

theorem importSelected_ok_iff {manifest : Manifest Path} {names seen : List String}
    {segments : List (FileSegment Path)} :
    importSelected build base manifest.images.entries manifest.flashFiles.entries names seen =
        .ok segments ↔
      names.Nodup ∧ (∀ name ∈ names, name ∉ seen) ∧
        List.Forall₂ (Chosen build base manifest) names segments := by
  induction names generalizing seen segments with
  | nil =>
      constructor
      · intro h
        obtain rfl := Except.ok.inj h
        exact ⟨List.nodup_nil, by simp, .nil⟩
      · rintro ⟨-, -, h⟩
        rw [List.forall₂_nil_left_iff.mp h]
        rfl
  | cons name names ih =>
      constructor
      · intro h
        obtain ⟨hseen, h⟩ := ensure_bind h
        obtain ⟨value, hvalue, h⟩ := result_bind h
        obtain ⟨image, himage, h⟩ := result_bind h
        obtain ⟨hencrypted, h⟩ := ensure_bind h
        obtain ⟨offset, hoffset, h⟩ := result_bind h
        obtain ⟨hmatch, h⟩ := ensure_bind h
        obtain ⟨size, hsize, h⟩ := result_bind h
        obtain ⟨hpos, h⟩ := ensure_bind h
        obtain ⟨rest, hrest, h⟩ := result_bind h
        obtain rfl := Except.ok.inj h
        obtain ⟨hnodup, hfresh, hchosen⟩ := ih.mp hrest
        refine ⟨List.nodup_cons.mpr ⟨fun hmem => hfresh name hmem List.mem_cons_self, hnodup⟩,
          List.forall_mem_cons.mpr ⟨of_decide_eq_true hseen, fun n hn hmem =>
            hfresh n hn (List.mem_cons_of_mem _ hmem)⟩, .cons ?_ hchosen⟩
        exact
          { image := ⟨value, image, orContext_eq_ok.mp hvalue, ok_of_withContext himage,
              by simpa using hencrypted, parseOffset_ok_iff.mp hoffset, rfl⟩
            file := any_matching.mp hmatch
            size := ⟨size, inspect_ok_iff.mp hsize, of_decide_eq_true hpos⟩ }
      · rintro ⟨hnodup, hfresh, hall⟩
        obtain ⟨⟨offset, file⟩, rest, hchosen, hrest, rfl⟩ := List.forall₂_cons_left_iff.mp hall
        obtain ⟨value, image, hvalue, himage, hencrypted, hoffset, rfl⟩ := hchosen.image
        obtain ⟨size, hsize, hpos⟩ := hchosen.size
        obtain ⟨hnew, hnodup⟩ := List.nodup_cons.mp hnodup
        obtain ⟨hseen, hfresh⟩ := List.forall_mem_cons.mp hfresh
        have htail := ih.mpr ⟨hnodup, fun n hn hmem => (List.mem_cons.mp hmem).elim
          (fun h : n = name => hnew (h ▸ hn)) (hfresh n hn), hrest⟩
        unfold importSelected
        rw [decide_eq_true hseen, orContext_eq_ok.mpr hvalue]
        simp only [bind, Except.bind, ensure_true, withContext, Except.mapError, himage, hencrypted,
          Bool.not_false, parseOffset_ok_iff.mpr hoffset, any_matching.mpr hchosen.file,
          inspect_ok_iff.mpr hsize, decide_eq_true hpos, htail]
        rfl

theorem importManifest_ok_iff {manifest : Manifest Path} {selected : List String}
    {r : Import Path} :
    importManifest build base (.ok manifest) selected = .ok r ↔
      Supported manifest r.plan.flashSettings ∧
        importFiles build base manifest selected = .ok (r.plan.segments, r.warnings) ∧
        r.plan.segments ≠ [] ∧ r.plan.version = 1 ∧
        r.plan.chip = manifest.extraEsptoolArgs.chip := by
  constructor
  · intro h
    obtain ⟨hreset, h⟩ := ensure_bind h
    obtain ⟨⟨⟩, hplain, h⟩ := result_bind h
    obtain ⟨settings, hsettings, h⟩ := result_bind h
    obtain ⟨hperm, h⟩ := ensure_bind h
    obtain ⟨hlength, h⟩ := ensure_bind h
    obtain ⟨⟨segments, warnings⟩, hfiles, h⟩ := result_bind h
    obtain ⟨hne, h⟩ := ensure_bind h
    obtain rfl := Except.ok.inj h
    obtain ⟨pairs, hpairs, hknown, hnodup, rfl⟩ := readArgs_ok_iff.mp hsettings
    rw [List.nil_append] at hperm hlength ⊢
    have hperm := of_decide_eq_true hperm
    have hlength := of_decide_eq_true hlength
    have hnames : ∀ key ∈ (pairs.map settingOf).map Prod.fst, key ∈ settingNames := by
      rw [List.map_map]
      exact List.forall_mem_map.mpr fun q hq => (hknown q hq).1
    obtain ⟨mode, frequency, size, hspelled⟩ := perm_spelled hnodup hnames hlength
    have hvalue : ∀ key value, (key, value) ∈ spelled mode frequency size →
        (pairs.map settingOf).lookup key = some value := fun key value hmem =>
      (lookup_iff_mem hnodup).mpr (hspelled.mem_iff.mpr hmem)
    refine ⟨⟨of_decide_eq_true hreset, checkImages_ok_iff.mp hplain, ⟨pairs, hpairs, hperm⟩,
      mode, frequency, size, hperm.symm.trans hspelled, ?_⟩, hfiles, of_decide_eq_true hne, rfl,
      rfl⟩
    rw [hvalue "flash_mode" mode (by simp [spelled]),
      hvalue "flash_freq" frequency (by simp [spelled]),
      hvalue "flash_size" size (by simp [spelled])]
  · rintro ⟨hsupported, hfiles, hne, hversion, hchip⟩
    obtain ⟨mode, frequency, size, hspelled, hsettings⟩ := hsupported.settings
    obtain ⟨pairs, hpairs, hperm⟩ := hsupported.arguments
    have hnodup : ((pairs.map settingOf).map Prod.fst).Nodup :=
      (hperm.map Prod.fst).nodup_iff.mpr manifest.flashSettings.nodup
    have hvalue : ∀ key value, (key, value) ∈ spelled mode frequency size →
        (pairs.map settingOf).lookup key = some value := fun key value hmem =>
      (lookup_iff_mem hnodup).mpr ((hperm.trans hspelled).mem_iff.mpr hmem)
    have hread : readArgs manifest.writeFlashArgs [] = .ok (pairs.map settingOf) := by
      refine readArgs_ok_iff.mpr ⟨pairs, hpairs, fun q hq => ⟨?_, rfl⟩, hnodup, rfl⟩
      have hmem := (hperm.trans hspelled).mem_iff.mp (List.mem_map_of_mem hq)
      simp only [spelled, List.mem_cons, List.not_mem_nil, or_false, settingOf,
        Prod.mk.injEq] at hmem
      rcases hmem with ⟨h, -⟩ | ⟨h, -⟩ | ⟨h, -⟩ <;> simp [settingNames, h]
    have hlength : (pairs.map settingOf).length = 3 := (hperm.trans hspelled).length_eq
    have hreset := hsupported.reset
    unfold importManifest
    simp only [bind, Except.bind, decide_eq_true hreset, ensure_true,
      checkImages_ok_iff.mpr hsupported.plain, hread, decide_eq_true hperm, decide_eq_true hlength,
      hfiles, decide_eq_true hne]
    rw [hvalue "flash_mode" mode (by simp [spelled]),
      hvalue "flash_freq" frequency (by simp [spelled]),
      hvalue "flash_size" size (by simp [spelled]), ← hsettings, ← hchip, ← hversion]
    rfl

/-- With no images selected, the plan has every file of the manifest that is not empty, at the
offset that its key spells, and the others are warned of. -/
theorem imports_every_file (build : Build Path) (base : Path) (manifest : Manifest Path)
    (r : Import Path) :
    importManifest build base (.ok manifest) [] = .ok r ↔
      Supported manifest r.plan.flashSettings ∧
        (∃ places, List.Forall₂ (Found build base) manifest.flashFiles.entries places ∧
          r.plan.segments = (manifest.flashFiles.entries.zip places).filterMap segmentOf ∧
          r.warnings = (manifest.flashFiles.entries.zip places).filterMap
            (warningOf build manifest.images.entries)) ∧
        r.plan.segments ≠ [] ∧ r.plan.version = 1 ∧
        r.plan.chip = manifest.extraEsptoolArgs.chip := by
  rw [importManifest_ok_iff, importFiles, if_pos rfl, importAll_ok_iff]

/-- The plan has the selected images in their order, each of them one of the files of the manifest
at its offset; none is passed over in silence. -/
theorem imports_selected_images (build : Build Path) (base : Path) (manifest : Manifest Path)
    (selected : List String) (hselected : selected ≠ []) (r : Import Path) :
    importManifest build base (.ok manifest) selected = .ok r ↔
      Supported manifest r.plan.flashSettings ∧ selected.Nodup ∧
        List.Forall₂ (Chosen build base manifest) selected r.plan.segments ∧ r.warnings = [] ∧
        r.plan.version = 1 ∧ r.plan.chip = manifest.extraEsptoolArgs.chip := by
  have hfiles : importFiles build base manifest selected = .ok (r.plan.segments, r.warnings) ↔
      (selected.Nodup ∧ List.Forall₂ (Chosen build base manifest) selected r.plan.segments) ∧
        r.warnings = [] := by
    have hiff := @importSelected_ok_iff _ build base _ manifest selected [] r.plan.segments
    simp only [List.not_mem_nil, not_false_eq_true, implies_true, true_and] at hiff
    rw [importFiles, if_neg hselected, ← hiff]
    cases importSelected build base manifest.images.entries manifest.flashFiles.entries selected
        [] with
    | error e => simp [Except.map]
    | ok segments => simp [Except.map, eq_comm]
  rw [importManifest_ok_iff, hfiles]
  constructor
  · rintro ⟨hsupported, ⟨⟨hnodup, hchosen⟩, hwarnings⟩, -, hversion, hchip⟩
    exact ⟨hsupported, hnodup, hchosen, hwarnings, hversion, hchip⟩
  · rintro ⟨hsupported, hnodup, hchosen, hwarnings, hversion, hchip⟩
    refine ⟨hsupported, ⟨⟨hnodup, hchosen⟩, hwarnings⟩, fun hnil => ?_, hversion, hchip⟩
    rw [hnil] at hchosen
    exact hselected (List.forall₂_nil_right_iff.mp hchosen)

end Import

def sampleManifest : Manifest String where
  flashFiles := ⟨[("0x0", "boot.bin"), ("0x10000", "hello.bin")], by decide⟩
  flashSettings := ⟨spelled "dio" "80m" "4MB", by decide⟩
  writeFlashArgs := ["--flash_mode", "dio", "--flash-size", "4MB", "--flash_freq", "80m"]
  extraEsptoolArgs :=
    { chip := "esp32s3", before := "default-reset", after := "hard_reset", stub := true }
  images := ⟨[("app", .object [("offset", .string "0x10000"), ("file", .string "hello.bin")])],
    by decide⟩

/-- Files as long as their names. -/
def sampleBuild : Build String where
  join _ file := file
  display file := file
  size file := .ok file.length
  image value :=
    match value.get "offset", value.get "file" with
    | some (.string offset), some (.string file) => .ok { offset, file, encrypted := false }
    | _, _ => .error (.msg "missing field")

def sampleImport : Import String where
  plan :=
    { version := 1, chip := "esp32s3"
      flashSettings := { mode := some "dio", frequency := some "80m", size := some "4MB" }
      segments := [{ offset := 0x10000, file := "hello.bin" }] }
  warnings := []

theorem imports_selected_images_sample :
    Supported sampleManifest sampleImport.plan.flashSettings ∧ ["app"].Nodup ∧
      List.Forall₂ (Chosen sampleBuild "" sampleManifest) ["app"] sampleImport.plan.segments ∧
      sampleImport.warnings = [] ∧ sampleImport.plan.version = 1 ∧
      sampleImport.plan.chip = sampleManifest.extraEsptoolArgs.chip :=
  (imports_selected_images sampleBuild "" sampleManifest ["app"] (by decide) sampleImport).mp
    (by rfl)

end IdfRemote.FlashImport
