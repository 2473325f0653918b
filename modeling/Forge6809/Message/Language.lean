import Forge6809.Text.Bytes

/-! # Languages of the messages

A message is known by its English template. The German catalogue replaces some of the templates;
a template that it does not list is used as it is. -/

namespace Forge6809

inductive Language where
  | english
  | german
deriving DecidableEq, Repr

namespace Language

def groupMark : Language → UInt8
  | english => 0x2C
  | german => 0x2E

/-- The language of a locale, if there are messages for it. -/
def ofLocale? (locale : String) : Option Language :=
  if locale = "de" ∨ locale = "de-DE" then some german
  else if locale = "en" ∨ locale = "en-US" then some english
  else none

/-- The first locale with messages decides; English otherwise. -/
def ofLocales (locales : List String) : Language :=
  (locales.findSome? ofLocale?).getD english

end Language

/-- The German templates, by their English ones. -/
def germanCatalogue : List (String × String) :=
  [("line %d '%v' %v", "Zeile %d '%v' %v"),
    ("line %d ($%04X) %v", "Zeile %d ($%04X) %v"),
    ("%v %v, first defined on line %d", "%v %v, zuerst definiert in Zeile %d"),
    ("unexpected '%v'", "unerwartet '%v'"),
    ("label duplicated", "Marke doppelt definiert"),
    ("label undefined", "Marke nicht definiert"),
    ("label required", "Marke erforderlich"),
    ("label invalid", "Marke ungültig"),
    ("label moved between passes", "Marke zwischen den Durchläufen verschoben"),
    ("value overflow", "Wertüberlauf"),
    ("register invalid", "Register ungültig"),
    ("operand invalid", "Operand ungültig"),
    ("instruction invalid", "Befehl ungültig"),
    ("malformed expression", "fehlerhafter Ausdruck"),
    ("virtual disk full", "virtuelle Diskette voll"),
    ("file name too long", "Dateiname zu lang"),
    ("file name invalid", "Dateiname ungültig"),
    ("file exists", "Datei existiert bereits"),
    ("file not found", "Datei nicht gefunden"),
    ("step limit reached", "Schrittgrenze erreicht"),
    ("define out of range", "Definition außerhalb des Bereichs"),
    ("%v not supported for %v", "%v nicht unterstützt für %v"),
    ("binary envelope invalid", "Binärumschlag ungültig")]

def Language.template (lang : Language) (key : String) : String :=
  match lang with
  | .english => key
  | .german => (germanCatalogue.lookup key).getD key

end Forge6809
