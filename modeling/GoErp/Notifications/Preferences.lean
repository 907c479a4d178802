import GoErp.Lib.Assoc
import GoErp.Lib.Table

/-!
# `Notifications.Preferences` — the stored preferences of one user

`notifications/preferences.go`. The rows of `notification_preferences` that belong to one user are a table keyed by
`notification_type`, with `none` for the `NULL` of the global row (the unique constraint treats `NULL`s as equal).
`loadPreferences` reads them and `updatePreferences` is the transaction that rewrites them.
-/

namespace GoErp.Notifications

open Lib

/-- The channels of a notification. -/
structure Channels where
  email : Bool
  sms : Bool
  push : Bool
deriving DecidableEq, Repr

/-- The channels of a user without preferences. -/
def DefaultChannels : Channels := ⟨true, false, true⟩

/-- A `nil` field is left unchanged. -/
structure ChannelsPatch where
  email : Option Bool
  sms : Option Bool
  push : Option Bool
deriving DecidableEq, Repr

/-- The channels after a patch; what it does not name stays. -/
def ChannelsPatch.apply (p : ChannelsPatch) (c : Channels) : Channels where
  email := p.email.getD c.email
  sms := p.sms.getD c.sms
  push := p.push.getD c.push

/-- The global row and the rows of types. -/
structure Preferences where
  global : Channels
  types : List (String × Channels)
deriving DecidableEq, Repr

/-- The user's rows of `notification_preferences`, by `notification_type`. -/
abbrev Rows : Type := Table (Option String) Channels

/-- One row of the result set. -/
def Preferences.scan (p : Preferences) (row : Option String × Channels) : Preferences :=
  match row.1 with
  | some typ => { p with types := Assoc.put p.types typ row.2 }
  | none => { p with global := row.2 }

/-- `LoadPreferences` -/
def loadPreferences (rows : Rows) : Preferences :=
  rows.rows.foldl Preferences.scan ⟨DefaultChannels, []⟩

/-- The row of one type after its patch; `global` is the global row with its own patch applied. -/
def patchType (current : Preferences) (global : Channels) (pinTypes : Bool) (rows : Rows)
    (entry : String × ChannelsPatch) : Rows :=
  let base := (Assoc.get? current.types entry.1).getD global
  let c := entry.2.apply base
  if c = global ∧ pinTypes = false then rows.erase (some entry.1) else rows.insert (some entry.1) c

/-- The transaction; `types` is the map in the order in which the loop meets it. -/
def updatePreferences (rows : Rows) (global : Option ChannelsPatch) (types : List (String × ChannelsPatch))
    (pinTypes : Bool) : Rows :=
  let current := loadPreferences rows
  match global with
  | some patch =>
    let g := patch.apply current.global
    types.foldl (patchType current g pinTypes) (rows.insert none g)
  | none => types.foldl (patchType current current.global pinTypes) rows

end GoErp.Notifications
