import SecureGroup.Channel
import SecureGroup.Message
import SecureGroup.Metadata.Index

/-!
# Notifications

What a replica tells its subscribers: the metadata entries that took effect, and the messages that
were decrypted.
-/

namespace SecureGroup

/-- What subscribers are told. -/
inductive Notification where
  | metadata (notice : Metadata.Notice)
  | message (message : Message)
deriving DecidableEq

end SecureGroup
