import CallAdapter.Fault
import CallAdapter.Member.Search

/-!
# Builder settings

Defaults of a builder, which apply to every request that does not state its own. Settings may also
be read from texts, of which each may be missing.
-/

namespace CallAdapter

/-- The name that stands for constructors. -/
def constructorKeyword : String := ".ctor"

structure BuildConfig where
  options : SearchMask := SearchMask.standard
  /-- Whether a failed build raises; otherwise it gives the absent value. -/
  throwOnFailure : Bool := true
  constructorName : String := constructorKeyword
  useCache : Bool := true

/-- Settings as they are written. -/
structure SettingTexts where
  search : Option String := none
  throwOnFailure : Option String := none
  cache : Option String := none

/-- Settings with those of `new` in their place. -/
def SettingTexts.updated (old new : SettingTexts) : SettingTexts :=
  ⟨new.search.or old.search, new.throwOnFailure.or old.throwOnFailure, new.cache.or old.cache⟩

namespace BuildConfig

/-- Reads settings: a blank search mask is the standard one, failures raise unless the text is
`0`, and the cache is off unless the text is `1`. The error is the first unknown option. -/
def ofTexts (texts : SettingTexts) : Except String BuildConfig := do
  let search := texts.search.getD ""
  let options ← if (Text.strip search).isEmpty then .ok SearchMask.standard
    else SearchMask.ofText search
  pure
    { options := options
      throwOnFailure := texts.throwOnFailure.getD "1" != "0"
      useCache := texts.cache.getD "0" == "1" }

/-- The failure to read a search mask, which names the first unknown option. -/
def unknownOption (word : String) : Failure :=
  .exception .valueError (some ("unknown search option " ++ Text.quoted word))

theorem ofTexts_empty : ofTexts {} = .ok { useCache := false } := rfl

end BuildConfig

end CallAdapter
