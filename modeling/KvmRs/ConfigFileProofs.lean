import KvmRs.ClientConfigProofs
import KvmRs.DestPathProofs
import KvmRs.DirectoryProofs

/-! # Loading and saving `client.toml`

    `load_or_default` falls back to the default config where the file cannot
    be read, is not UTF-8, or does not parse, and any later save writes over
    the file.  Only the last of the three moves the file aside first.

    TOML is a parameter.  The directory holds the config file and its backup;
    renames and writes succeed. -/

namespace KvmConfigFile

open ByteCodec Directory KvmFileName KvmDestPath KvmClientConfig

/-- `Path::with_extension`, in the directory of the path: no name without a
    stem gets one. -/
def withExtension (name ext : Name) : Name :=
  match fileStem name with
  | some stem => stem ++ '.' :: ext
  | none => name

/-- `toml::from_str` and `toml::to_string_pretty`. -/
structure Toml where
  parse : String → Option Config
  render : Config → Option String

/-- Where a config that does not parse is moved to. -/
def backupName (path : Name) : Name := withExtension path "toml.bak".toList

/-- `read_to_string`, which refuses bytes that are not UTF-8.  `readable` says
    that the system lets the file be read. -/
def readToString (readable : Bool) (d : Dir Name) (path : Name) :
    Option String :=
  if readable then (d.read path).bind ofUtf8 else none

/-- `Config::load_or_default`: the config, and the directory afterwards. -/
def loadOrDefault (t : Toml) (readable : Bool) (d : Dir Name) (path : Name) :
    Config × Dir Name :=
  match readToString readable d path with
  | none => (Config.default, d)
  | some content =>
      match t.parse content with
      | some config => (config, d)
      | none =>
          -- a rename that fails is only logged
          (Config.default, (d.rename path (backupName path)).getD d)

/-- `Config::save`, with the directory there and the permissions left out. -/
def save (t : Toml) (d : Dir Name) (path : Name) (config : Config) : Dir Name :=
  match t.render config with
  | none => d
  | some content =>
      let opened := d.create path
      opened.1.append opened.2 (utf8 content)

/-! ## The backup is another file -/

/-- A name never has an extension with a dot in it. -/
theorem withExtension_ne {n ext : Name} (h : Bare n) (hdot : '.' ∈ ext) :
    withExtension n ext ≠ n := by
  intro heq
  rcases rsplit_cases n with hcut | hcut | ⟨before, after, hn, hafter, hcut⟩
  · simp only [withExtension, fileStem, h.fileName, Option.bind_some, hcut,
      Option.some_or] at heq
    have hlen := congrArg List.length heq
    rw [List.length_append, List.length_cons] at hlen
    omega
  · simp only [withExtension, fileStem, h.fileName, Option.bind_some, hcut,
      Option.none_or] at heq
    have hlen := congrArg List.length heq
    rw [List.length_append, List.length_cons] at hlen
    omega
  · simp only [withExtension, fileStem, h.fileName, Option.bind_some, hcut,
      Option.some_or] at heq
    have hcons := List.append_cancel_left (heq.trans hn)
    rw [← (List.cons.inj hcons).2] at hafter
    exact hafter hdot

theorem backupName_ne {path : Name} (h : Bare path) : backupName path ≠ path :=
  withExtension_ne h (by decide)

/-! ## What loading and saving leave alone -/

section Frame

variable {t : Toml} {d : Dir Name} {path other : Name} {config : Config}
  {readable : Bool} {bytes : List UInt8} {content : String}

/-- A save changes no other file. -/
theorem read_save_of_ne (h : other ≠ path) :
    (save t d path config).read other = d.read other := by
  rw [save]
  split
  · rfl
  · have hname : (d.create path).1.names path = some (d.create path).2 :=
      (entry_eq_some.mp (entry_create_self d path)).1
    simp only [Dir.read, Dir.append]
    rw [entry_setContent_of_ne hname h, entry_create_of_ne h]

/-- The text of a file that can be read. -/
theorem readToString_some (hfile : d.read path = some bytes) :
    readToString readable d path = some content
      ↔ readable = true ∧ ofUtf8 bytes = some content := by
  rw [readToString, hfile, Option.bind_some]
  cases readable with
  | false => simp
  | true => exact (and_iff_right rfl).symm

/-- A rename leaves the bytes under the new name. -/
theorem read_rename {d' : Dir Name} (hfile : d.read path = some bytes)
    (h : d.rename path other = some d') : d'.read other = some bytes := by
  obtain ⟨f, hold, hnew⟩ := (rename_some h).1
  rw [Dir.read, hold] at hfile
  rw [Dir.read, hnew]
  exact hfile

/-- Without its text the file is left alone. -/
theorem load_unread (h : readToString readable d path = none) :
    loadOrDefault t readable d path = (Config.default, d) := by
  rw [loadOrDefault, h]

theorem load_parsed (h : readToString readable d path = some content)
    (hparse : t.parse content = some config) :
    loadOrDefault t readable d path = (config, d) := by
  rw [loadOrDefault, h]
  simp only [hparse]

/-- Text that does not parse is moved to the backup. -/
theorem load_broken (hfile : d.read path = some bytes)
    (h : readToString readable d path = some content)
    (hparse : t.parse content = none) :
    ∃ d', loadOrDefault t readable d path = (Config.default, d') ∧
      d'.read (backupName path) = some bytes := by
  obtain ⟨f, hentry, -⟩ := Option.map_eq_some_iff.mp hfile
  obtain ⟨d', hrename⟩ := rename_of_entry (m := backupName path) hentry
  refine ⟨d', ?_, read_rename hfile hrename⟩
  rw [loadOrDefault, h]
  simp only [hparse, hrename, Option.getD_some]

end Frame

/-! ## A load and a save -/

/-- A file that held `bytes` is not lost: what was loaded is what it says, or
    the backup holds every byte of it. -/
def Kept (t : Toml) (bytes : List UInt8) (path : Name) (loaded : Config)
    (d : Dir Name) : Prop :=
  (∃ content, ofUtf8 bytes = some content ∧ t.parse content = some loaded) ∨
    d.read (backupName path) = some bytes

/-- The file is text that can be read, or it is not missed: it says what the
    default config does, or the backup holds the same bytes already. -/
def Recoverable (t : Toml) (readable : Bool) (d : Dir Name) (path : Name)
    (bytes : List UInt8) : Prop :=
  (readable = true ∧ ∃ content, ofUtf8 bytes = some content) ∨
    (∃ content, ofUtf8 bytes = some content ∧
      t.parse content = some Config.default) ∨
    d.read (backupName path) = some bytes

section Load

variable {t : Toml} {d : Dir Name} {path : Name} {readable : Bool}
  {bytes : List UInt8}

/-- A save does not change what is kept. -/
theorem kept_save (h : Bare path) (loaded config : Config) :
    Kept t bytes path loaded (save t d path config)
      ↔ Kept t bytes path loaded d := by
  rw [Kept, Kept, read_save_of_ne (backupName_ne h)]

/-- Text that can be read is parsed or moved. -/
theorem kept_load {content : String} (hfile : d.read path = some bytes)
    (h : readToString readable d path = some content) :
    Kept t bytes path (loadOrDefault t readable d path).1
      (loadOrDefault t readable d path).2 := by
  have hutf := ((readToString_some hfile).mp h).2
  cases hparse : t.parse content with
  | some config =>
      rw [load_parsed h hparse]
      exact Or.inl ⟨content, hutf, hparse⟩
  | none =>
      obtain ⟨d', hload, hbackup⟩ := load_broken hfile h hparse
      rw [hload]
      exact Or.inr hbackup

/-- A load keeps a file exactly if it is recoverable. -/
theorem kept_load_iff (hfile : d.read path = some bytes) :
    Kept t bytes path (loadOrDefault t readable d path).1
        (loadOrDefault t readable d path).2
      ↔ Recoverable t readable d path bytes := by
  cases hread : readToString readable d path with
  | some content =>
      have htext := (readToString_some hfile).mp hread
      exact iff_of_true (kept_load hfile hread)
        (Or.inl ⟨htext.1, content, htext.2⟩)
  | none =>
      have hno : ¬ (readable = true ∧ ∃ content, ofUtf8 bytes = some content) := by
        rintro ⟨hr, content, hutf⟩
        have hsome := (readToString_some hfile).mpr ⟨hr, hutf⟩
        rw [hread] at hsome
        cases hsome
      rw [load_unread hread, Recoverable, or_iff_right hno]
      exact Iff.rfl

end Load

/-- **A CONFIG FILE IS KEPT IF IT IS TEXT**: for every content of an existing
    config file and any config that is saved after the load, the loaded config
    is the parse of the file or the backup holds its bytes, exactly if the
    file is text that can be read, or says what the default config does, or is
    backed up already. -/
theorem load_then_save_keeps_iff (t : Toml) (readable : Bool) (d : Dir Name)
    (path : Name) (bytes : List UInt8) (config : Config) (hpath : Bare path)
    (hfile : d.read path = some bytes) :
    Kept t bytes path (loadOrDefault t readable d path).1
        (save t (loadOrDefault t readable d path).2 path config)
      ↔ Recoverable t readable d path bytes := by
  rw [kept_save hpath, kept_load_iff hfile]

/-! ## A file that is not text -/

/-- TOML on what the runs below read and write: the empty text is the default
    config, the text of the first run does not parse, and the default config
    is written. -/
def sampleToml : Toml where
  parse := fun content => if content = "" then some Config.default else none
  render := fun _ =>
    some "auto_connect = false\nclient_secret = \"\"\n\n[known_servers]\n"

def clientTomlName : Name := "client.toml".toList

/-- A directory with this `client.toml`. -/
def dirWith (bytes : List UInt8) : Dir Name :=
  let opened := (Dir.empty : Dir Name).create clientTomlName
  opened.1.append opened.2 bytes

/-- The theorem at a text that does not parse. -/
theorem load_then_save_keeps_broken :
    let bytes := utf8 "this is not valid toml \x7b\x7b\x7b"
    Kept sampleToml bytes clientTomlName
      (loadOrDefault sampleToml true (dirWith bytes) clientTomlName).1
      (save sampleToml
        (loadOrDefault sampleToml true (dirWith bytes) clientTomlName).2
        clientTomlName Config.default) := by
  intro bytes
  have hpath : Bare clientTomlName := ⟨by decide, by decide, by decide, by decide⟩
  refine (load_then_save_keeps_iff sampleToml true (dirWith bytes)
    clientTomlName bytes Config.default hpath rfl).mpr (Or.inl ⟨rfl, ?_⟩)
  exact ⟨_, (ofUtf8_eq_some _ _).mpr rfl⟩

/-- **A BYTE THAT IS NO TEXT LOSES THE FILE**: `client.toml` holds the one byte
    `FF`; it loads as the default config, nothing is backed up, and the save
    writes over it. -/
theorem invalid_utf8_is_overwritten :
    let loaded := loadOrDefault sampleToml true (dirWith [0xff]) clientTomlName
    let after := save sampleToml loaded.2 clientTomlName loaded.1
    ¬ Kept sampleToml [0xff] clientTomlName loaded.1 after ∧
      after.read (backupName clientTomlName) = none ∧
      after.read clientTomlName
        = some (utf8 ("auto_connect = false\nclient_secret = \"\"\n\n"
          ++ "[known_servers]\n")) := by
  have hinvalid : ofUtf8 [0xff] = none := by
    decide +kernel
  have hbackup : (save sampleToml
      (loadOrDefault sampleToml true (dirWith [0xff]) clientTomlName).2
      clientTomlName Config.default).read (backupName clientTomlName) = none := by
    rfl
  refine ⟨?_, hbackup, rfl⟩
  rintro (⟨content, hutf, -⟩ | hsome)
  · rw [hinvalid] at hutf
    cases hutf
  · cases hbackup.symm.trans hsome

end KvmConfigFile
