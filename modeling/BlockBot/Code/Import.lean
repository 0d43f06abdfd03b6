/-!
# Imports of a program

What a program may need beyond its fixed beginning, in the order in which it is written.
-/

namespace BlockBot

/-- A declaration to be imported. -/
inductive Import where
  | regex
  | time
  | flexMessage
  | imageMessage
  | stickerMessage
  deriving DecidableEq, Repr

namespace Import

/-- The statement that imports a declaration. -/
def statement : Import → String
  | .regex => "import re"
  | .time => "import time"
  | .flexMessage => "from linebot.models import FlexSendMessage"
  | .imageMessage => "from linebot.models import ImageSendMessage"
  | .stickerMessage => "from linebot.models import StickerSendMessage"

/-- All imports in the order of the program. -/
def all : List Import :=
  [.regex, .time, .flexMessage, .imageMessage, .stickerMessage]

/-- The statements for a set of imports, which may be listed in any order and with repetitions. -/
def statements (imports : List Import) : List String :=
  (all.filter (imports.contains ·)).map statement

end Import

end BlockBot
