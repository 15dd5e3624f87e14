import WrapperGen.Config
import WrapperGen.Json.Print
import WrapperGen.Json.Reader

namespace WrapperGen.GeneratorConfig

open Json

def value (c : GeneratorConfig) : Value :=
  .record [("wrapper_prefix", .text c.wrapperPrefix), ("imports", .texts c.imports),
    ("subscription_type", .text c.subscriptionType),
    ("subscribe_method", .text c.subscribeMethod), ("close_method", .text c.closeMethod),
    ("header", .text c.header)]

open RecordReader in
/-- A field that is left out keeps its standard; there are no other fields. -/
def read : Reader GeneratorConfig :=
  closedRead (GeneratorConfig.mk <$> fieldOr "wrapper_prefix" readText standard.wrapperPrefix <*>
    fieldOr "imports" (readList readText) standard.imports <*>
    fieldOr "subscription_type" readText standard.subscriptionType <*>
    fieldOr "subscribe_method" readText standard.subscribeMethod <*>
    fieldOr "close_method" readText standard.closeMethod <*>
    fieldOr "header" readText standard.header)

end WrapperGen.GeneratorConfig
