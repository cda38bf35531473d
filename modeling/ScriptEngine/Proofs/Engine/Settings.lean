import ScriptEngine.Engine.Config
import ScriptEngine.Proofs.Json.Library

/-!
# Settings as documents

A configuration is written as an object with its three settings and read back from it, by any
library that does what it is documented to do. An object may also leave settings out, list them in
any order and with any blanks and escapes, and hold members that are no settings: what it lists is
kept, and what it leaves out is at its default.
-/

namespace ScriptEngine

namespace Json

section Documents

theorem isNumeral_toDigits (n : ℕ) : IsNumeral (Nat.toDigits 10 n) := by
  have hwhole : IsWhole (Nat.toDigits 10 n) := by
    rcases Nat.eq_zero_or_pos n with rfl | hn
    · exact .zero
    · refine .digits ⟨Nat.toDigits_ne_nil, fun d hd => isDigit_of_mem_toDigits hd⟩ ?_
      cases hdigits : Nat.toDigits 10 n with
      | nil => exact absurd hdigits Nat.toDigits_ne_nil
      | cons d ds =>
        intro hzero
        exact Numeric.ne_zero_of_toDigits hn hdigits (Option.some.inj hzero)
  have hnumeral := IsNumeral.intro (.inl rfl) hwhole .none .none
  rwa [List.append_nil, List.append_nil, List.nil_append] at hnumeral

theorem Spells.padded {j : Json} {cs : List Char} (h : Spells j cs) : SpellsPadded j cs := by
  have hpadded := SpellsPadded.intro isBlank_nil h isBlank_nil
  rwa [List.nil_append, List.append_nil] at hpadded

variable {m : List Char × Json} {members : List (List Char × Json)} {cs : List Char}

theorem SpellsPadded.of_members (h : SpellsPadded (.object (m :: members)) cs) :
    (∃ value, SpellsPadded m.2 value) ∧ ∃ rest, SpellsPadded (.object members) rest := by
  have hvalue {m : List Char × Json} {cs : List Char} (h : SpellsMember m cs) :
      ∃ value, SpellsPadded m.2 value := by
    obtain @⟨_, _, _, _, value, -, -, -, h⟩ := h
    exact ⟨value, h⟩
  obtain @⟨_, _, _, _, -, hobject, -⟩ := h
  cases hobject with
  | object hmembers =>
    cases hmembers with
    | last hm => exact ⟨hvalue hm, _, (Spells.emptyObject isBlank_nil).padded⟩
    | cons hm hrest => exact ⟨hvalue hm, _, (Spells.object hrest).padded⟩

end Documents

end Json

namespace Config

open Json

/-- A value that states a setting as a configuration has it. -/
inductive Setting.States (c : Config) : Setting → Json → Prop where
  | sourceName {raw : List Char} (h : Denotes raw c.sourceName.toList) :
      States c .sourceName (.string raw)
  | prelude : States c .prelude (.bool c.prelude)
  | unbounded (h : c.maxCallDepth = none) : States c .maxCallDepth .null
  | bounded {n : UInt64} (h : c.maxCallDepth = some n) :
      States c .maxCallDepth (.number (Nat.toDigits 10 n.toNat))

/-- The members of an object list some settings of a configuration, each once, among members with
other names. -/
inductive Lists (c : Config) : List (List Char × Json) → List Setting → Prop where
  | nil : Lists c [] []
  | setting {key : List Char} {value : Json} {members : List (List Char × Json)} {s : Setting}
      {settings : List Setting} (hkey : Denotes key s.key.toList) (hvalue : s.States c value)
      (hnew : s ∉ settings) (h : Lists c members settings) :
      Lists c ((key, value) :: members) (s :: settings)
  | other {key name : List Char} {value : Json} {members : List (List Char × Json)}
      {settings : List Setting} (hkey : Denotes key name)
      (hother : ∀ s : Setting, name ≠ s.key.toList)
      (h : Lists c members settings) : Lists c ((key, value) :: members) settings

def keeping (c : Config) (settings : List Setting) : Config where
  sourceName := if .sourceName ∈ settings then c.sourceName else standard.sourceName
  prelude := if .prelude ∈ settings then c.prelude else standard.prelude
  maxCallDepth := if .maxCallDepth ∈ settings then c.maxCallDepth else standard.maxCallDepth

theorem keeping_all (c : Config) : c.keeping Setting.all = c :=
  rfl

variable {L : Library} {c : Config}

section Reading

theorem get_keeping_cons (c : Config) (s : Setting) (settings : List Setting) :
    (c.keeping (s :: settings)).get =
      Struct.Record.set (s := struct) (c.keeping settings).get s (c.get s) := by
  funext t
  by_cases h : s = t
  · subst h
    refine Eq.trans ?_ (Struct.Record.set_self (s := struct) _ s (c.get s)).symm
    have hmem : s ∈ s :: settings := List.mem_cons_self
    cases s <;> simp only [get, keeping, if_pos hmem] <;> rfl
  · have hmem : t ∈ s :: settings ↔ t ∈ settings := by simp [Ne.symm h]
    refine Eq.trans ?_ (Struct.Record.set_of_ne (s := struct) _ h (c.get s)).symm
    cases t <;> exact if_congr hmem rfl rfl

theorem read_of_states (hL : L.Documented) {s : Setting} {value : Json} (h : s.States c value)
    {text : String} (htext : SpellsPadded value text.toList) :
    L.read s.type text = some (c.get s) := by
  cases h with
  | sourceName hraw => exact hL.reads_text htext hraw
  | prelude => exact hL.reads_flag htext
  | unbounded hnone =>
    change L.read (.option .word) text = some c.maxCallDepth
    rw [hnone]
    exact hL.reads_null .word htext
  | bounded hsome =>
    change L.read (.option .word) text = some c.maxCallDepth
    rw [hsome, hL.reads_some .word htext nofun, hL.reads_word htext]
    rfl

theorem key_injective {s t : Setting} (h : s.key.toList = t.key.toList) : s = t := by
  cases s <;> cases t <;> first | rfl | exact absurd h (by decide)

theorem Lists.names {members : List (List Char × Json)} {settings : List Setting}
    (h : c.Lists members settings) {s : Setting} (hs : s ∉ settings) :
    ∀ m ∈ members, ∃ name, Denotes m.1 name ∧ name ≠ s.key.toList := by
  induction h with
  | nil => nofun
  | setting hkey _ _ _ ih =>
    obtain ⟨hne, hs⟩ := not_or.1 (fun h => hs (List.mem_cons.2 h))
    exact List.forall_mem_cons.2 ⟨⟨_, hkey, fun heq => hne (key_injective heq).symm⟩, ih hs⟩
  | other hkey hother _ ih => exact List.forall_mem_cons.2 ⟨⟨_, hkey, hother s⟩, ih hs⟩

theorem readStruct_of_lists (hL : L.Documented) {members : List (List Char × Json)}
    {settings : List Setting} (h : c.Lists members settings) {text : String}
    (htext : SpellsPadded (.object members) text.toList) :
    L.readStruct struct text = some (c.keeping settings).get := by
  induction h generalizing text with
  | nil => exact hL.reads_empty struct htext
  | setting hkey hvalue hnew hlists ih =>
    obtain ⟨⟨value, hspells⟩, rest, hrest⟩ := htext.of_members
    rw [← String.toList_ofList (l := value)] at hspells
    rw [← String.toList_ofList (l := rest)] at hrest
    rw [get_keeping_cons]
    exact hL.reads_field struct htext hrest (ih hrest) hkey (hlists.names hnew) hspells
      (read_of_states hL hvalue hspells)
  | other hkey hother _ ih =>
    obtain ⟨-, rest, hrest⟩ := htext.of_members
    rw [← String.toList_ofList (l := rest)] at hrest
    rw [hL.reads_other struct htext hrest hkey hother, ih hrest]

theorem ofJson?_of_lists (hL : L.Documented) {text : String} {members : List (List Char × Json)}
    {settings : List Setting} (htext : SpellsPadded (.object members) text.toList)
    (h : c.Lists members settings) : ofJson? L text = some (c.keeping settings) := by
  unfold ofJson?
  rw [readStruct_of_lists hL h htext]
  rfl

end Reading

section Writing

theorem write_states (hL : L.Documented) (c : Config) (s : Setting) :
    ∃ text value, L.write s.type (c.get s) = some text ∧ Spells value text.toList ∧
      s.States c value := by
  cases s with
  | sourceName =>
    obtain ⟨text, raw, hwrite, htext, hraw⟩ := hL.writes_text c.sourceName
    exact ⟨text, .string raw, hwrite, htext ▸ .string hraw.isRaw, .sourceName hraw⟩
  | prelude =>
    refine ⟨_, .bool c.prelude, hL.writes_flag c.prelude, ?_, .prelude⟩
    cases c.prelude with
    | true => exact .true
    | false => exact .false
  | maxCallDepth =>
    change ∃ text value, L.write (.option .word) c.maxCallDepth = some text ∧ _
    cases hdepth : c.maxCallDepth with
    | none => exact ⟨_, .null, hL.writes_none .word, .null, .unbounded hdepth⟩
    | some n =>
      refine ⟨_, .number (Nat.toDigits 10 n.toNat),
        (hL.writes_some .word n).trans (hL.writes_word n), ?_, .bounded hdepth⟩
      rw [String.toList_ofList]
      exact .number (isNumeral_toDigits _)

theorem write_members (hL : L.Documented) (c : Config) (s : Setting) (settings : List Setting)
    (hnodup : (s :: settings).Nodup) :
    ∃ (texts : List (String × String)) (members : List (List Char × Json)),
      List.Forall₂ (fun s (m : String × String) =>
        L.write .text (struct.name s) = some m.1 ∧ L.write (struct.type s) (c.get s) = some m.2)
          (s :: settings) texts ∧
      SpellsMembers members (",".intercalate (texts.map fun m => m.1 ++ ":" ++ m.2)).toList ∧
      c.Lists members (s :: settings) := by
  obtain ⟨key, raw, hkey, hkeytext, hraw⟩ := hL.writes_text s.key
  obtain ⟨text, value, htext, hspells, hstates⟩ := write_states hL c s
  have hmember : SpellsMember (raw, value) (key ++ ":" ++ text).toList := by
    have h := SpellsMember.intro isBlank_nil hraw.isRaw isBlank_nil hspells.padded
    rw [String.toList_append, String.toList_append, hkeytext]
    simpa using h
  obtain ⟨hnew, hnodup⟩ := List.nodup_cons.1 hnodup
  cases settings with
  | nil =>
    refine ⟨[(key, text)], [(raw, value)], .cons ⟨hkey, htext⟩ .nil, .last ?_, ?_⟩
    · simpa using hmember
    · exact .setting hraw hstates hnew .nil
  | cons t settings =>
    obtain ⟨texts, members, hwritten, hmembers, hlists⟩ := write_members hL c t settings hnodup
    refine ⟨(key, text) :: texts, (raw, value) :: members, .cons ⟨hkey, htext⟩ hwritten, ?_,
      .setting hraw hstates hnew hlists⟩
    obtain ⟨m, texts, rfl⟩ : ∃ m rest, texts = m :: rest := by
      cases hwritten with
      | cons => exact ⟨_, _, rfl⟩
    have hall := SpellsMembers.cons hmember hmembers
    simpa [String.intercalate_cons_cons, List.append_assoc] using hall

theorem toJson_lists (hL : L.Documented) (c : Config) :
    ∃ members, SpellsPadded (.object members) (c.toJson L).toList ∧
      c.Lists members Setting.all := by
  obtain ⟨texts, members, hwritten, hmembers, hlists⟩ :=
    write_members hL c .sourceName [.prelude, .maxCallDepth] (by decide)
  refine ⟨members, ?_, hlists⟩
  unfold toJson
  rw [hL.writes_struct struct c.get texts hwritten, Option.getD_some, String.toList_append,
    String.toList_append]
  exact (Spells.object hmembers).padded

end Writing

/-- Settings survive being written as JSON. A configuration is written as an object that lists its
three settings, and it is read back from that. Any object that lists some of its settings, however
it is written, in whatever order and among whatever members with other names, is read as the
configuration with the settings it leaves out at their defaults. -/
theorem settings_survive_json {L : Library} (hL : L.Documented) (c : Config) :
    ofJson? L (c.toJson L) = some c ∧
    (∃ members, SpellsPadded (.object members) (c.toJson L).toList ∧ c.Lists members Setting.all) ∧
    ∀ (text : String) (members : List (List Char × Json)) (settings : List Setting),
      SpellsPadded (.object members) text.toList → c.Lists members settings →
        ofJson? L text = some (c.keeping settings) := by
  refine ⟨?_, toJson_lists hL c, fun text members settings htext h => ofJson?_of_lists hL htext h⟩
  obtain ⟨members, htext, hlists⟩ := toJson_lists hL c
  exact (ofJson?_of_lists hL htext hlists).trans (congrArg some c.keeping_all)

/-- The greatest call depth first, a member that is no setting, and a name written with escapes
behind it. The prelude is left out. -/
def reordered : String :=
  "\x7b\"max_call_depth\": 18446744073709551615,\"x\":[0],\"source_name\":\"\\n\\ud83d\\uDE00\"\x7d"

theorem denotes_key (s : Setting) : Denotes s.key.toList s.key.toList := by
  have hself {cs : List Char} (h : ∀ c ∈ cs,
    c ≠ '"' ∧ c ≠ '\\' ∧ 32 ≤ c.toNat) : Denotes cs cs := by
    induction cs with
    | nil => exact .nil
    | cons c cs ih =>
      obtain ⟨⟨hquote, hescape, hcontrol⟩, hcs⟩ := List.forall_mem_cons.1 h
      exact .plain hquote hescape hcontrol (ih hcs)
  apply hself
  cases s <;> simp [Setting.key]

/-- An object with two of the settings, in another order and with another member between them, read
by the library that goes through documents. -/
theorem settings_survive_json_reordered :
    ofJson? library (toJson library ⟨"\n😀", false, some 18446744073709551615⟩) =
      some ⟨"\n😀", false, some 18446744073709551615⟩ ∧
    ofJson? library reordered = some ⟨"\n😀", true, some 18446744073709551615⟩ := by
  obtain ⟨hback, -, hread⟩ :=
    settings_survive_json library_documented ⟨"\n😀", false, some 18446744073709551615⟩
  have hblank : IsBlank [' '] := by simp [IsBlank, isSpace]
  have hname : Denotes ['\\', 'n', '\\', 'u', 'd', '8', '3', 'd', '\\', 'u', 'D', 'E', '0', '0']
      ['\n', '😀'] := by
    have hpair := Denotes.pair (a := 'd') (b := '8') (c := '3') (d := 'd') (e := 'D') (f := 'E')
      (g := '0') (h := '0') rfl rfl rfl rfl .nil
    exact .short rfl hpair
  have hx : Denotes ['x'] ['x'] := .plain (by decide) (by decide) (by decide) .nil
  have hdepth := SpellsMember.intro isBlank_nil (denotes_key .maxCallDepth).isRaw isBlank_nil
    (.intro hblank (.number (isNumeral_toDigits (18446744073709551615 : UInt64).toNat)) isBlank_nil)
  have hother := SpellsMember.intro isBlank_nil hx.isRaw isBlank_nil
    (.intro isBlank_nil (.array (.last (.intro isBlank_nil (.number (isNumeral_toDigits 0))
      isBlank_nil))) isBlank_nil)
  have hsource := SpellsMember.intro isBlank_nil (denotes_key .sourceName).isRaw isBlank_nil
    (.intro isBlank_nil (.string hname.isRaw) isBlank_nil)
  have hdocument := SpellsPadded.intro isBlank_nil
    (.object (.cons hdepth (.cons hother (.last hsource)))) isBlank_nil
  refine ⟨hback, (hread reordered _ [.maxCallDepth, .sourceName] hdocument ?_).trans rfl⟩
  exact .setting (denotes_key .maxCallDepth) (.bounded rfl) (by decide)
    (.other hx (by intro s; cases s <;> decide)
      (.setting (denotes_key .sourceName) (.sourceName hname) (by decide) .nil))

end Config

end ScriptEngine
