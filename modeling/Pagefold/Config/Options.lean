import Pagefold.Json.Decode
import Pagefold.Table

/-! # Configurations

What a run can be told: how documents are folded (`Options`), how the program runs (`Settings`), and
named sets of overrides for both (`Profile`).  A configuration is written as an object
(`Config.toJson`) and read from one (`Config.decode`); what an object leaves out keeps its
default. -/

namespace Pagefold

open Json

/-- How the documents of a build are folded. -/
structure Options where
  /-- Patterns of the scripts and stylesheets to fold in; with none, all are. -/
  patterns : List String := []
  /-- Whether files go when nothing needs them any more. -/
  deleteFolded : Bool := true
  /-- Whether preload code is cut out of entry chunks. -/
  removePreload : Bool := false
  /-- Whether comments are cut out of stylesheets. -/
  stripComments : Bool := true
  /-- Whether scripts are hidden from a reader of XML. -/
  cdata : Bool := false
  /-- The opening of the names of wrapped chunks. -/
  lead : String := "__ns_"
deriving DecidableEq, Repr

structure Settings where
  /-- The level of the log when nothing else says one. -/
  logLevel? : Option String := none
  /-- How many documents are planned at a time. -/
  jobs? : Option Nat := none
deriving DecidableEq, Repr

/-- Overrides under a name. -/
structure Profile where
  options : Json := null
  settings : Json := null

structure Config where
  options : Options := {}
  settings : Settings := {}
  profiles : Table Profile := .empty

/-! ### Writing -/

def Options.toJson (o : Options) : Json :=
  ofFields [("inline_pattern", strings o.patterns), ("delete_inlined_files", bool o.deleteFolded),
    ("remove_module_loader", bool o.removePreload), ("strip_css_comments", bool o.stripComments),
    ("cdata", bool o.cdata), ("namespace_prefix", string o.lead)]

def Settings.toJson (s : Settings) : Json :=
  ofFields [("log_level", ofString? s.logLevel?), ("parallel_jobs", (s.jobs?.map nat).getD null)]

def Profile.toJson (p : Profile) : Json :=
  ofFields [("inline", p.options), ("settings", p.settings)]

def Config.toJson (c : Config) : Json :=
  ofFields [("inline", c.options.toJson), ("settings", c.settings.toJson),
    ("profiles", object (c.profiles.entries.map fun (name, profile) => (name, profile.toJson)))]

/-! ### Reading -/

def Options.fields : List (RecordField Options) :=
  [.of "inline_pattern" (decodeList decodeString) fun patterns o => { o with patterns },
    .of "delete_inlined_files" decodeBool fun deleteFolded o => { o with deleteFolded },
    .of "remove_module_loader" decodeBool fun removePreload o => { o with removePreload },
    .of "strip_css_comments" decodeBool fun stripComments o => { o with stripComments },
    .of "cdata" decodeBool fun cdata o => { o with cdata },
    .of "namespace_prefix" decodeString fun lead o => { o with lead }]

def Options.decode (exact : Bool) : Decoder Options :=
  decodeRecord exact "struct InlineOptions" Options.fields {}

def Settings.fields : List (RecordField Settings) :=
  [.of "log_level" (decodeOption decodeString) fun logLevel? s => { s with logLevel? },
    .of "parallel_jobs" (decodeOption decodeCount) fun jobs? s => { s with jobs? }]

def Settings.decode (exact : Bool) : Decoder Settings :=
  decodeRecord exact "struct GlobalSettings" Settings.fields {}

def Profile.fields : List (RecordField Profile) :=
  [.of "inline" decodeAny fun options p => { p with options },
    .of "settings" decodeAny fun settings p => { p with settings }]

def Profile.decode (exact : Bool) : Decoder Profile :=
  decodeRecord exact "struct ProfileConfig" Profile.fields {}

def Config.fields (exact : Bool) : List (RecordField Config) :=
  [.of "inline" (Options.decode exact) fun options c => { c with options },
    .of "settings" (Settings.decode exact) fun settings c => { c with settings },
    .of "profiles" (decodeTable (Profile.decode exact))
      fun profiles c => { c with profiles := .ofList profiles }]

/-- Reads a configuration.  An `exact` reader refuses lists that are longer than the record they
stand for. -/
def Config.decode (exact : Bool) : Decoder Config :=
  decodeRecord exact "struct InlayConfig" (Config.fields exact) {}

end Pagefold
