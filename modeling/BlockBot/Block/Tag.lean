/-!
# Tags

Closed sets of sub-types, each stored in a document as a text, its tag. Within a set the tags
differ, so a tag names at most one member; tags are compared as they are, letter case included.
-/

namespace BlockBot

/-- A closed set whose members are stored as texts. -/
class Tagged (α : Type) where
  /-- All members, in their order. -/
  all : List α
  /-- How a member is stored. -/
  tag : α → String

/-- The member with a given tag. -/
def ofTag? {α : Type} [Tagged α] (tag : String) : Option α :=
  (Tagged.all : List α).find? fun a => Tagged.tag a == tag

/-- What happens on the messaging platform. -/
inductive Trigger where
  | messageText
  | messageImage
  | messageSticker
  | messageVideo
  | messageAudio
  | messageLocation
  | messageFile
  | follow
  | unfollow
  | join
  | leave
  | postback
  | beacon
  deriving DecidableEq, Repr

/-- The text that stands for a trigger. -/
def Trigger.tag : Trigger → String
  | .messageText => "message.text"
  | .messageImage => "message.image"
  | .messageSticker => "message.sticker"
  | .messageVideo => "message.video"
  | .messageAudio => "message.audio"
  | .messageLocation => "message.location"
  | .messageFile => "message.file"
  | .follow => "follow"
  | .unfollow => "unfollow"
  | .join => "join"
  | .leave => "leave"
  | .postback => "postback"
  | .beacon => "beacon"

instance : Tagged Trigger where
  all := [.messageText, .messageImage, .messageSticker, .messageVideo, .messageAudio,
    .messageLocation, .messageFile, .follow, .unfollow, .join, .leave, .postback, .beacon]
  tag := Trigger.tag

/-- The tag of a trigger as a part of a function's name: dots become underscores. -/
def Trigger.ident (t : Trigger) : String :=
  String.ofList (t.tag.toList.map fun c => if c = '.' then '_' else c)

/-- What a reply sends. -/
inductive ReplyKind where
  | text
  | image
  | flex
  | sticker
  deriving DecidableEq, Repr

/-- The text that stands for a kind of reply. -/
def ReplyKind.tag : ReplyKind → String
  | .text => "text"
  | .image => "image"
  | .flex => "flex"
  | .sticker => "sticker"

instance : Tagged ReplyKind where
  all := [.text, .image, .flex, .sticker]
  tag := ReplyKind.tag

/-- How a control block directs the flow. -/
inductive ControlKind where
  | branch
  | loop
  | wait
  deriving DecidableEq, Repr

/-- The text that stands for a kind of control. -/
def ControlKind.tag : ControlKind → String
  | .branch => "if"
  | .loop => "loop"
  | .wait => "wait"

instance : Tagged ControlKind where
  all := [.branch, .loop, .wait]
  tag := ControlKind.tag

/-- What a setting does with a variable. -/
inductive SettingKind where
  | setVariable
  | getVariable
  | saveUserData
  deriving DecidableEq, Repr

/-- The text that stands for a kind of setting. -/
def SettingKind.tag : SettingKind → String
  | .setVariable => "setVariable"
  | .getVariable => "getVariable"
  | .saveUserData => "saveUserData"

instance : Tagged SettingKind where
  all := [.setVariable, .getVariable, .saveUserData]
  tag := SettingKind.tag

/-- How a text message is compared with a pattern. -/
inductive MatchMode where
  | contains
  | exact
  | startsWith
  | endsWith
  | regex
  deriving DecidableEq, Repr

/-- The text that stands for a way to compare. -/
def MatchMode.tag : MatchMode → String
  | .contains => "contains"
  | .exact => "exact"
  | .startsWith => "startsWith"
  | .endsWith => "endsWith"
  | .regex => "regex"

instance : Tagged MatchMode where
  all := [.contains, .exact, .startsWith, .endsWith, .regex]
  tag := MatchMode.tag

/-- The left side of a structured condition. -/
inductive Subject where
  | message
  | rawVariable
  | userId
  deriving DecidableEq, Repr

/-- The text that stands for a subject. -/
def Subject.tag : Subject → String
  | .message => "message"
  | .rawVariable => "variable"
  | .userId => "userId"

instance : Tagged Subject where
  all := [.message, .rawVariable, .userId]
  tag := Subject.tag

end BlockBot
