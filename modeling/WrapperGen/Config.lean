namespace WrapperGen

/-- What the user may choose about the wrappers. -/
structure GeneratorConfig where
  /-- What the name of a wrapper begins with. -/
  wrapperPrefix : String
  imports : List String
  /-- The type of what a subscription returns. -/
  subscriptionType : String
  subscribeMethod : String
  closeMethod : String
  /-- The first lines of every file; by the first of them old files are known again. -/
  header : String
  deriving DecidableEq

def GeneratorConfig.standard : GeneratorConfig where
  wrapperPrefix := "Observable"
  imports := ["Combine", "SharedSDK"]
  subscriptionType := "Closeable"
  subscribeMethod := "watch"
  closeMethod := "close"
  header := "// Generated by vmbridge. Do not edit."

end WrapperGen
